import DocHarvest.Shell.Printing
import DocHarvest.Shell.State

/-!
# Conditions

The conditions that scripts test: on texts, on numbers, and on files.

## Main definitions

* `Shell.condition?` — whether a condition holds, if it is one.
-/

namespace DocHarvest.Shell

open Files (Tree Entry)

/-- Whether a file is what a sign asks for. -/
def fileTest? (tree : Tree) (sign : Chars) (name : Chars) : Option Bool :=
  let path := Chars.toBytes name
  let found? := (tree.inspect path).toOption
  let linked : Bool :=
    match (Files.Path.parse path).bind (tree.follow false) with
    | .ok ⟨_, some (.link _)⟩ => true
    | _ => false
  match String.ofList sign with
  | "-e" | "-r" | "-w" => some found?.isSome
  | "-f" =>
    some (match found? with
      | some (.file ..) => true
      | _ => false)
  | "-d" => some (found? = some .directory)
  | "-s" =>
    some (match found? with
      | some (.file content _) => !content.isEmpty
      | some .directory => true
      | _ => false)
  | "-x" =>
    some (match found? with
      | some (.file _ executable) => executable
      | some .directory => true
      | _ => false)
  | "-L" | "-h" => some linked
  | _ => none

/-- Whether a text or file is what a sign asks for. -/
def unaryTest? (tree : Tree) (sign operand : Chars) : Option Bool :=
  if sign = ['-', 'n'] then some (!operand.isEmpty)
  else if sign = ['-', 'z'] then some operand.isEmpty
  else fileTest? tree sign operand

/-- Whether two texts or numbers are related as a sign asks for. -/
def binaryTest? (first sign second : Chars) : Option Bool :=
  let numbers (f : Int → Int → Bool) : Option Bool :=
    match integerOf first, integerOf second with
    | (a, true), (b, true) => if first.isEmpty || second.isEmpty then none else some (f a b)
    | _, _ => none
  match String.ofList sign with
  | "=" => some (first = second)
  | "!=" => some (first ≠ second)
  | "-eq" => numbers fun a b => a = b
  | "-ne" => numbers fun a b => a ≠ b
  | "-lt" => numbers fun a b => a < b
  | "-le" => numbers fun a b => a ≤ b
  | "-gt" => numbers fun a b => b < a
  | "-ge" => numbers fun a b => b ≤ a
  | _ => none

/-- The words before and after the first that joins two conditions. -/
def splitAtWord (word : Chars) : List Chars → Option (List Chars × List Chars)
  | [] => none
  | first :: rest =>
    if first = word then some ([], rest)
    else (splitAtWord word rest).map fun (before, after) => (first :: before, after)

/-- Whether a condition holds that is not joined from others, if it is one. -/
def simpleCondition? (tree : Tree) : List Chars → Option Bool
  | [] => some false
  | [s] => some (!s.isEmpty)
  | ['!'] :: [s] => some s.isEmpty
  | [sign, operand] => unaryTest? tree sign operand
  | [first, sign, second] =>
    match binaryTest? first sign second with
    | some holds => some holds
    | none => if first = ['!'] then (unaryTest? tree sign second).map (! ·) else none
  | [['!'], first, sign, second] => (binaryTest? first sign second).map (! ·)
  | _ => none

/-- Whether a condition holds, if it is one. The fuel bounds how many are joined. -/
def joinedCondition? (tree : Tree) : Nat → List Chars → Option Bool
  | 0, _ => none
  | fuel + 1, words =>
    match simpleCondition? tree words with
    | some holds => some holds
    | none =>
      match splitAtWord ['-', 'o'] words with
      | some (before, after) => do
        let first ← joinedCondition? tree fuel before
        let second ← joinedCondition? tree fuel after
        some (first || second)
      | none =>
        match splitAtWord ['-', 'a'] words with
        | some (before, after) => do
          let first ← joinedCondition? tree fuel before
          let second ← joinedCondition? tree fuel after
          some (first && second)
        | none => none

/-- Whether a condition holds, if it is one. -/
def condition? (tree : Tree) (words : List Chars) : Option Bool :=
  joinedCondition? tree (words.length + 1) words

end DocHarvest.Shell
