import TabularQuery.Text.CaseTable
import TabularQuery.Text.CodeClasses

/-!
Letter case of whole texts. A letter may map to several, and a capital sigma becomes the final form
at the end of a word: when a cased letter stands before it and none after it, ignorable characters
apart.
-/

namespace TabularQuery.Text

def mapCase (sequences : List (Nat × List Nat)) (runs : List CaseRun) (c : Char) : List Char :=
  match sequences.lookup c.toNat with
  | some codes => codes.map Char.ofNat
  | none => [Char.ofNat ((runs.findSome? fun run => run.map? c.toNat).getD c.toNat)]

/-- Lower case of a letter on its own. -/
def lowerChar (c : Char) : List Char :=
  if c.toNat < 0x80 then [c.toLower] else mapCase lowerSequences lowerRuns c

/-- Upper case of a letter. -/
def upperChar (c : Char) : List Char :=
  if c.toNat < 0x80 then [c.toUpper] else mapCase upperSequences upperRuns c

/-- Is the first character that is not ignorable a letter with a case? -/
def meetsCased (cs : List Char) : Bool :=
  match cs.dropWhile fun c => inClass caseIgnorable c.toNat with
  | c :: _ => inClass cased c.toNat
  | [] => false

/-- Lower case of a text; `before` holds the characters already passed, nearest first. -/
def lowerFrom (before : List Char) : List Char → List Char
  | [] => []
  | c :: rest =>
    let letters :=
      if c = 'Σ' then [if meetsCased before && !meetsCased rest then 'ς' else 'σ'] else lowerChar c
    letters ++ lowerFrom (c :: before) rest

def lower (s : String) : String := String.ofList (lowerFrom [] s.toList)

def upper (s : String) : String := String.ofList (s.toList.flatMap upperChar)

/-- Equality of ASCII letters in either case. -/
def sameWord (a b : String) : Bool := a.map Char.toLower = b.map Char.toLower

end TabularQuery.Text
