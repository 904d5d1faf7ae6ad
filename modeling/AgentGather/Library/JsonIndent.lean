import AgentGather.Library.Json

/-!
# Indented JSON texts

`JSON.stringify(value, null, 2)`, and the text `String(value)` is.
-/

namespace AgentGather.Library.Json

/-- A new line at depth `depth`. -/
def newLine (depth : Nat) : List Char := '\n' :: List.replicate (2 * depth) ' '

mutual

/-- `JSON.stringify(value, null, 2)`, its first line at depth `depth`. -/
def printIndented (depth : Nat) : Json → List Char
  | arr [] => ['[', ']']
  | arr (x :: xs) =>
      '[' :: (newLine (depth + 1) ++ printIndented (depth + 1) x ++
        printIndentedItems depth xs)
  | obj [] => ['\x7b', '\x7d']
  | obj ((k, v) :: fs) =>
      '\x7b' :: (newLine (depth + 1) ++ printString k ++ ':' :: ' ' ::
        (printIndented (depth + 1) v ++ printIndentedFields depth fs))
  | null => print null
  | bool b => print (bool b)
  | num n => print (num n)
  | real token => print (real token)
  | str s => print (str s)

def printIndentedItems (depth : Nat) : List Json → List Char
  | [] => newLine depth ++ [']']
  | x :: xs =>
      ',' :: (newLine (depth + 1) ++ printIndented (depth + 1) x ++
        printIndentedItems depth xs)

def printIndentedFields (depth : Nat) : List (String × Json) → List Char
  | [] => newLine depth ++ ['\x7d']
  | (k, v) :: fs =>
      ',' :: (newLine (depth + 1) ++ printString k ++ ':' :: ' ' ::
        (printIndented (depth + 1) v ++ printIndentedFields depth fs))

end

mutual

/-- `String(value)`.  An item that is `null` leaves nothing in the text of its array. -/
def toText : Json → List Char
  | null => ['n', 'u', 'l', 'l']
  | bool true => ['t', 'r', 'u', 'e']
  | bool false => ['f', 'a', 'l', 's', 'e']
  | num n => printInt n
  | real token => token
  | str s => s.toList
  | arr [] => []
  | arr (null :: xs) => toTextItems xs
  | arr (x :: xs) => toText x ++ toTextItems xs
  | obj _ => "[object Object]".toList

def toTextItems : List Json → List Char
  | [] => []
  | null :: xs => ',' :: toTextItems xs
  | x :: xs => ',' :: (toText x ++ toTextItems xs)

end

@[simp] theorem toText_str (s : String) : (str s).toText = s.toList := rfl

example : printIndented 0 (.obj [("a", .arr [.num 1, .num (-2)]), ("b", .arr [])]) =
    "\x7b\n  \"a\": [\n    1,\n    -2\n  ],\n  \"b\": []\n\x7d".toList := by decide

example : toText (.arr [.num 1, .null, .arr [.num 2, .str "x"]]) = "1,,2,x".toList := by
  decide

end AgentGather.Library.Json
