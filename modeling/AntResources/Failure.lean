import AntResources.Path
import AntResources.Text.Quoted

/-!
# AntResources.Failure

What can go wrong, by cause.

* `ResourceError` — the failures that the rules of this library name: each has a category and a
  message for the user;
* `Fault` — the failures of what lies beneath (paths that the system refuses, broken archives,
  numbers out of range). They stop the whole program;
* `Failure` — either of them.
-/

namespace AntResources

/-! ## Faults -/

/-- A failure of what lies beneath the library. -/
inductive Fault where
  /-- A path has a NUL in it. -/
  | nulInPath
  /-- A path, or one segment of it, is longer than the system takes. -/
  | nameTooLong
  /-- Following a path means going through links without end. -/
  | linkLoop
  /-- The way to a place that is to be changed goes through more links than the system follows. -/
  | tooManyLinks
  /-- Bytes that should be text are not UTF-8. -/
  | notText
  /-- A decoder gives up on bytes that should be text. -/
  | refusedText
  /-- A member of an archive is encrypted. -/
  | encryptedMember
  /-- An archive uses a feature that the reader lacks. -/
  | unsupportedArchive
  /-- The compressed data of a member make no sense. -/
  | corruptMember
  /-- A member of an archive has no name. -/
  | namelessMember
  /-- The data of a member end too early. -/
  | truncatedMember
  /-- A member is said to lie beyond what a file can hold. -/
  | offsetOutOfRange
  /-- An archive is one part of several. -/
  | splitArchive
  /-- A value in a settings file should be a table and is not. -/
  | notATable
  /-- A value in a settings file should hold other values and does not. -/
  | notAContainer
  /-- A whole number is beyond the range of floating-point numbers. -/
  | numberTooLarge
  /-- A whole number has too many digits to be read or written. -/
  | numberTooLong
  /-- A folder is to be made where a file is. -/
  | fileExists
  /-- A path leads through something that is not a folder. -/
  | notAFolder
  /-- A folder has been removed that is needed, such as the working folder. -/
  | missingFolder
  /-- A path leads through a folder that may not be searched. -/
  | permissionDenied
  /-- Values, links or folders lie too deep in each other. -/
  | nestedTooDeep
  /-- The path of an output file has no last segment. -/
  | noFileName
  /-- An option that is needed was given without a value. -/
  | missingValue
deriving DecidableEq, Repr

/-- A fault in words. -/
def Fault.message : Fault → String
  | .nulInPath => "a path has a NUL character in it"
  | .nameTooLong => "a path is too long"
  | .linkLoop => "a path goes through links without end"
  | .tooManyLinks => "a path goes through too many links"
  | .notText => "bytes that are not UTF-8"
  | .refusedText => "bytes that a decoder refuses"
  | .encryptedMember => "an archive member is encrypted"
  | .unsupportedArchive => "an archive uses a feature that is not supported"
  | .corruptMember => "an archive member is corrupt"
  | .namelessMember => "an archive member has no name"
  | .truncatedMember => "an archive member ends too early"
  | .offsetOutOfRange => "an archive member has an offset out of range"
  | .splitArchive => "an archive is one part of several"
  | .notATable => "a value in a settings file is not a table"
  | .notAContainer => "a value in a settings file holds no other values"
  | .numberTooLarge => "a number is too large"
  | .numberTooLong => "a number has too many digits"
  | .fileExists => "a file is in the way"
  | .notAFolder => "a path leads through something that is not a folder"
  | .missingFolder => "a folder has been removed"
  | .permissionDenied => "a path leads through a folder that may not be searched"
  | .nestedTooDeep => "something is nested too deep"
  | .noFileName => "a path names no file"
  | .missingValue => "an option was given without a value"

/-- How deep values, links and folders may lie in each other. -/
def maxNesting : Nat := 988

/-! ## Resource errors -/

/-- The category of a resource error, by which a caller may react to it. -/
inductive ErrorCategory where
  /-- The text of an expression is at fault. -/
  | invalidExpression
  /-- What was asked for is nowhere on the search path. -/
  | notFound
  /-- Something is there and cannot be read. -/
  | unreadable
deriving DecidableEq, Repr

/-- A failure that the rules of this library name. -/
inductive ResourceError where
  /-- An expression with nothing in it. -/
  | emptyExpression (text : String)
  /-- A remote location whose authority makes no sense. -/
  | malformedLocation (location : String)
  /-- A remote location without a scheme, or with a scheme only. -/
  | notALocation (location : String)
  /-- Nothing on the search path provides the root of an expression. -/
  | rootNotFound (root raw : String)
  /-- Nothing on the search path provides a resource. -/
  | resourceNotFound (path : String)
  /-- The folder that a listing starts from is none. -/
  | baseNotFound (base : Path)
  /-- A folder that cannot be listed. -/
  | unreadableFolder (folder : Path)
  /-- An archive that cannot be read. -/
  | unreadableArchive (archive : Path)
  /-- A member of an archive that is not text in the encoding asked for. -/
  | undecodableMember (entry : String) (archive : Path)
  /-- A file that cannot be read, or is not text in the encoding asked for. -/
  | unreadableFile (file : Path)
  /-- A locator without a scheme. -/
  | noScheme (locator : String)
  /-- A locator whose scheme has no reader. -/
  | unsupportedScheme (scheme locator : String)
  /-- A remote resource that could not be fetched. -/
  | fetchFailed (url reason : String)
deriving DecidableEq, Repr

namespace ResourceError

def category : ResourceError → ErrorCategory
  | .emptyExpression _ | .malformedLocation _ | .notALocation _ => .invalidExpression
  | .rootNotFound .. | .resourceNotFound _ => .notFound
  | .baseNotFound _ | .unreadableFolder _ | .unreadableArchive _ | .undecodableMember ..
  | .unreadableFile _ | .noScheme _ | .unsupportedScheme .. | .fetchFailed .. => .unreadable

/-- The error in words. -/
def message : ResourceError → String
  | .emptyExpression text => "Expression cannot be empty: " ++ Text.quote text
  | .malformedLocation location => "Cannot parse remote location: " ++ location
  | .notALocation location => "Not a valid remote location: " ++ location
  | .rootNotFound root raw =>
    "Classpath resource not found: /" ++ root ++ " (from " ++ Text.quote raw ++ ")"
  | .resourceNotFound path => "Classpath resource not found: classpath:" ++ path
  | .baseNotFound base => "Base directory not found: " ++ base.toString
  | .unreadableFolder folder => "Cannot read directory: " ++ folder.toString
  | .unreadableArchive archive => "Cannot read archive: " ++ archive.toString
  | .undecodableMember entry archive =>
    "Cannot decode " ++ entry ++ " in " ++ archive.toString
  | .unreadableFile file => "Cannot read file: " ++ file.toString
  | .noScheme locator => "Resource has no scheme: " ++ locator
  | .unsupportedScheme scheme locator =>
    "Unsupported resource scheme " ++ Text.quote scheme ++ ": " ++ locator
  | .fetchFailed url reason => "Cannot fetch " ++ url ++ ": " ++ reason

end ResourceError

/-- Why an operation failed. -/
inductive Failure where
  | resource (error : ResourceError)
  | fault (fault : Fault)
deriving DecidableEq, Repr

end AntResources
