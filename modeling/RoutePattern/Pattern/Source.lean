import RoutePattern.Pattern.Group
import RoutePattern.Pattern.Token
import RoutePattern.Text.Blank

/-! The expression that a pattern stands for, as text. Literal characters with a
meaning in expressions are escaped, groups become optional, and every parameter
becomes a capture; each step reads what the one before it has written. -/
namespace RoutePattern.Pattern
open Text

/-- Characters that are escaped in an expression: the operators and white space.
Parentheses, asterisks and colons stay, for the later steps to read. -/
def isSpecial (char : Char) : Bool :=
  "-\x7b\x7d[]+?.,\\^$|#".toList.contains char || isBlank char

/-- A backslash in front of every special character. -/
def escape (pattern : List Char) : List Char :=
  pattern.flatMap fun char => if isSpecial char then ['\\', char] else [char]

/-- Every group becomes an optional group without a capture. -/
def openGroups (text : List Char) : List Char :=
  replace groupLength (fun group => "(?:".toList ++ body group ++ ")?".toList) text

/-- A named parameter captures one segment: at least one character, neither a
slash nor a question mark. -/
def namedCapture : List Char := "([^/?]+)".toList

/-- A splat parameter captures as few characters as it can, no question mark among them. -/
def splatCapture : List Char := "([^?]*?)".toList

/-- Behind the path a question mark may follow, and any text, which is captured. -/
def queryCapture : List Char := "(?:\\?([\\s\\S]*))?".toList

/-- Every named token becomes a capture. A marked one is left alone: here `(?:` is
the opening of a group, and the word behind it is literal text. -/
def captureNamed (text : List Char) : List Char :=
  replace namedLength (fun token => if isMarked token then token else namedCapture) text

/-- Every splat token becomes a capture. -/
def captureSplats (text : List Char) : List Char :=
  replace splatLength (fun _ => splatCapture) text

/-- The expression for a pattern, which takes in the whole text it is matched with. -/
def source (pattern : List Char) : List Char :=
  '^' :: captureSplats (captureNamed (openGroups (escape pattern))) ++ queryCapture ++
    "\\Z".toList

example : source "/u(/:id)/*rest".toList =
    "^/u(?:/([^/?]+))?/([^?]*?)(?:\\?([\\s\\S]*))?\\Z".toList := by decide

/-- At the beginning of a group a named token is still a parameter, and a word without a
colon is literal text. -/
example : source "(:id)(edit)".toList =
    "^(?:([^/?]+))?(?:edit)?(?:\\?([\\s\\S]*))?\\Z".toList := by decide

end RoutePattern.Pattern
