import AntResources.Main
import AntResources.Proofs.ArchiveScans
import AntResources.Proofs.Containment
import AntResources.Proofs.Exclusions
import AntResources.Proofs.LiteralFiles
import AntResources.Proofs.NearestSettings
import AntResources.Proofs.OutputFiles
import AntResources.Proofs.Packaging
import AntResources.Proofs.ParsedForm
import AntResources.Proofs.PatternMatching
import AntResources.Proofs.ReadingExpressions
import AntResources.Proofs.ReadingFiles
import AntResources.Proofs.ReadingPackaged
import AntResources.Proofs.Reexpansion
import AntResources.Proofs.RemoteGrammar
import AntResources.Proofs.ResolutionFaults
import AntResources.Proofs.RootAndGlob
import AntResources.Proofs.ScriptPages
import AntResources.Proofs.SettingsArrangement
import AntResources.Proofs.SettingsLoading
import AntResources.Proofs.SettingsPrecedence
import AntResources.Proofs.SettingsTypes
import AntResources.Proofs.TopPattern
import AntResources.Proofs.TreeListing
import AntResources.Proofs.UsableRoots
import AntResources.Proofs.WorkingFolders
import AntResources.Proofs.WrittenCommands
