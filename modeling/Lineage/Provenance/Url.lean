/-!
# The file part of a url

A url names the file that a declaration came from, behind a scheme and perhaps an authority, and
perhaps in front of a fragment: `scheme://authority/file?query#fragment`.  `Url.file` keeps the file with its
query.  Only the outermost scheme is removed, so a url nested in another one stays whole.  The
fragment goes first; the scheme is looked for in what is left.
-/

namespace Lineage.Url

/-- A url up to its first `#`. -/
def withoutFragment (url : List Char) : List Char := url.takeWhile (· != '#')

/-- Whether a character may stand in a scheme behind the first letter. -/
def isSchemeChar (c : Char) : Bool := c.isAlphanum || c == '+' || c == '-' || c == '.'

/-- Whether a text is a scheme: a letter, then letters, digits, `+`, `-` and `.`, all in ASCII. -/
def isScheme : List Char → Bool
  | [] => false
  | c :: rest => c.isAlpha && rest.all isSchemeChar

/-- What follows the scheme and its colon, if the url starts with a scheme. -/
def afterScheme? (url : List Char) : Option (List Char) :=
  match url.dropWhile (· != ':') with
  | [] => none
  | _ :: rest => if isScheme (url.takeWhile (· != ':')) then some rest else none

/-- A text without a leading authority, which is `//` and everything up to the next `/` or `?`. -/
def withoutAuthority : List Char → List Char
  | '/' :: '/' :: rest => rest.dropWhile fun c => c != '/' && c != '?'
  | rest => rest

/-- The file part of a url, character by character. -/
def fileChars (url : List Char) : List Char :=
  let whole := withoutFragment url
  match afterScheme? whole with
  | none => whole
  | some rest => withoutAuthority rest

/-- The file part of a url: what is left without scheme, authority and fragment. -/
def file (url : String) : String := String.ofList (fileChars url.toList)

end Lineage.Url
