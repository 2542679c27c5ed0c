/-!
# The style sheet of a page with listings

The rules that give the classes of a listing their looks.  The colors of code are custom properties,
which come in a light and in a dark variant; the light ones hold unless the reader prefers a dark
page.
-/

namespace CodeListing

/-- A rule of a style sheet. -/
structure SheetRule where
  selector : String
  declarations : List (String × String)
  deriving DecidableEq, Repr

/-- A part of a style sheet. -/
inductive SheetPart
  | rule (r : SheetRule)
  /-- Rules that hold under a condition. -/
  | media (query : String) (rules : List SheetRule)
  deriving DecidableEq, Repr

namespace Stylesheet

/-- A block of lines in braces behind its head, all of them indented by `indent`. -/
def braced (indent head : String) (lines : List String) : String :=
  indent ++ head ++ " \x7b\n" ++ String.join lines ++ indent ++ "\x7d\n"

/-- A rule as text. -/
def ruleText (indent : String) (r : SheetRule) : String :=
  braced indent r.selector (r.declarations.map fun (property, value) =>
    indent ++ "  " ++ property ++ ": " ++ value ++ ";\n")

/-- A part as text. -/
def partText : SheetPart → String
  | .rule r => ruleText "" r
  | .media query rules => braced "" ("@media " ++ query) (rules.map (ruleText "  "))

/-- The rules for listings. -/
def parts : List SheetPart := [
  .rule ⟨".codefence", [("position", "relative"), ("display", "flex")]⟩,
  .rule ⟨".codefence code", [("flex", "1"), ("order", "2")]⟩,
  .rule ⟨".codefence .line", [("display", "block")]⟩,
  .rule ⟨".codefence .line:empty::after", [("content", "\"\\200b\"")]⟩,
  .rule ⟨".codefence span", [
    ("color", "var(--color-light, inherit)"),
    ("background-color", "var(--bg-light, transparent)")]⟩,
  .media "(prefers-color-scheme: dark)" [
    ⟨".codefence span", [
      ("color", "var(--color-dark, inherit)"),
      ("background-color", "var(--bg-dark, transparent)")]⟩],
  .rule ⟨".codefence .line.highlighted", [("background-color", "rgba(142, 150, 170, 0.14)")]⟩,
  .rule ⟨".codefence .line.highlighted.warning", [("background-color", "rgba(234, 179, 8, 0.16)")]⟩,
  .rule ⟨".codefence .line.highlighted.error", [("background-color", "rgba(244, 63, 94, 0.16)")]⟩,
  .rule ⟨".codefence .line.diff.add", [("background-color", "rgba(16, 185, 129, 0.16)")]⟩,
  .rule ⟨".codefence .line.diff.remove", [
    ("background-color", "rgba(244, 63, 94, 0.16)"), ("opacity", "0.7")]⟩,
  .rule ⟨".codefence.has-focused-lines .line:not(.has-focus)", [
    ("filter", "blur(0.095rem)"), ("opacity", "0.7"),
    ("transition", "filter 0.35s, opacity 0.35s")]⟩,
  .rule ⟨".codefence.has-focused-lines:hover .line:not(.has-focus)", [
    ("filter", "blur(0)"), ("opacity", "1")]⟩,
  .rule ⟨".codefence .line.skipped-lines", [
    ("font-style", "italic"), ("opacity", "0.8"), ("user-select", "none")]⟩,
  .rule ⟨".codefence .line-numbers", [
    ("order", "1"), ("user-select", "none"), ("white-space", "pre"), ("margin-right", "0.4em"),
    ("padding-right", "0.4em"), ("min-width", "3ch"), ("text-align", "right"), ("opacity", "0.8")]⟩,
  .rule ⟨".codefence .line-numbers > span", [("display", "block")]⟩]

/-- The style sheet. -/
def text : String := String.join (parts.map partText)

end Stylesheet

end CodeListing
