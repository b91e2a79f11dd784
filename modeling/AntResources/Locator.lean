/-!
# AntResources.Locator

Locators: the texts that name single resources, such as `file:/srv/a.js` or `classpath:app/a.js`.
Two locators name the same resource exactly when their texts are equal.
-/

namespace AntResources

/-- The name of one resource. -/
structure Locator where
  text : String
deriving DecidableEq, Repr

namespace Locator

/-- The text before the first colon, if there is a colon and no slash before it. -/
def origin (l : Locator) : Option String :=
  let cs := l.text.toList
  let before := cs.takeWhile (· ≠ ':')
  if cs.contains ':' && !before.contains '/' then some (String.ofList before) else none

/-- The locators of a list without repeats, each at its first place. -/
def unique (locators : List Locator) : List Locator := locators.eraseDups

end Locator

end AntResources
