import Classdesk.Text.Split

/-!
# Quoted text and text on one line

String constants are written between double quotes, with a backslash in front of
every double quote inside; nothing else is escaped. Text that has to stay on one
line has its line feeds written as a backslash and an `n`.
-/

namespace Classdesk.Text

/-- The text between double quotes, quotes inside escaped. -/
def quote (text : String) : String :=
  String.ofList ('\"' :: replaceChar '\"' ['\\', '\"'] text.toList ++ ['\"'])

/-- The text with every line feed as a backslash and an `n`. -/
def onOneLine (text : String) : String :=
  String.ofList (replaceChar '\n' ['\\', 'n'] text.toList)

end Classdesk.Text
