import Nibble.Text.CaseTable

/-! # Lower case

Full lower-case mapping. A capital sigma becomes a final sigma where a word ends, and the dotted
capital I becomes two characters; every other letter is mapped on its own.
-/

namespace Nibble.Text

/-- The lower-case form of a character that does not depend on its neighbours. -/
def lowerChar (c : Char) : List Char :=
  if c.toNat = 0x130 then ['i', Char.ofNat 0x307] else
    match lowerRuns.find? fun (first, last, stride, _) =>
        first ≤ c.toNat && c.toNat ≤ last && (c.toNat - first) % stride = 0 with
    | some (_, _, _, shift) => [Char.ofNat (c.toNat + shift).toNat]
    | none => [c]

/-- Whether the first character that is not skipped is a letter with a case. -/
def startsCased (s : List Char) : Bool :=
  (s.dropWhile (inRanges caseIgnorable)).head?.any (inRanges cased)

/-- A sigma is final after a cased letter unless another one follows. -/
def lowerSigma (before after : List Char) : Char :=
  if startsCased before && !startsCased after then 'ς' else 'σ'

/-- Lower-cases the rest of a text; `before` is what precedes it, the nearest character first. -/
def lowercaseAfter (before : List Char) : List Char → List Char
  | [] => []
  | c :: rest =>
    (if c = 'Σ' then [lowerSigma before rest] else lowerChar c) ++
      lowercaseAfter (c :: before) rest

def lowercase (s : List Char) : List Char :=
  lowercaseAfter [] s

end Nibble.Text
