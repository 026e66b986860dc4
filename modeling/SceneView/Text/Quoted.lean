/-!
# Quoted text

Text in single quotes, as string literals of the generated code are written: a quote or a backslash
inside the text has a backslash before it.
-/

namespace SceneView.Text

/-- Whether the character needs a backslash inside quotes. -/
def needsEscape (c : Char) : Bool :=
  c == '\\' || c == '\x27'

def escape : List Char → List Char
  | [] => []
  | c :: cs => if needsEscape c then '\\' :: c :: escape cs else c :: escape cs

/-- Reads escaped text back; a backslash must stand before a quote or a backslash, and a quote after
a backslash. -/
def unescape? : List Char → Option (List Char)
  | [] => some []
  | '\\' :: c :: cs => if needsEscape c then (unescape? cs).map (c :: ·) else none
  | c :: cs => if needsEscape c then none else (unescape? cs).map (c :: ·)

def quote (s : String) : String :=
  "'" ++ String.ofList (escape s.toList) ++ "'"

/-- Escaped text reads back as what it was. -/
theorem unescape?_escape (cs : List Char) : unescape? (escape cs) = some cs := by
  induction cs with
  | nil => rfl
  | cons c cs ih =>
    by_cases h : needsEscape c = true
    · simp [escape, h, unescape?, ih]
    · simp only [escape, h, Bool.false_eq_true, ↓reduceIte]
      have : c ≠ '\\' := by
        rintro rfl
        exact h rfl
      simp [unescape?, this, h, ih]

end SceneView.Text
