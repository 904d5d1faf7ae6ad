import Mathlib.Data.List.Basic
import Mathlib.Tactic.Common

/-!
# Document trees

What a script builds of text nodes and elements, the text a reader sees of it, and the numbers
that the items of an ordered list show.
-/

namespace AgentGather.Library.Dom

/-- The value of an attribute: a text, or a number that a property reflects. -/
inductive Value where
  | text (text : List Char)
  | number (n : Int)
deriving DecidableEq, Repr

abbrev Attributes := List (String × Value)

inductive Node where
  | text (data : List Char)
  | element (tag : String) (attributes : Attributes) (children : List Node)
deriving Repr

/-- What setting `textContent` leaves: a text node, unless the text is empty. -/
def textNodes (data : List Char) : List Node := if data = [] then [] else [.text data]

/-! ## Text -/

mutual

/-- `textContent` -/
def Node.textContent : Node → List Char
  | .text data => data
  | .element _ _ children => textOf children

/-- The text of nodes, one behind the other. -/
def textOf : List Node → List Char
  | [] => []
  | node :: nodes => node.textContent ++ textOf nodes

end

@[simp] theorem textOf_append (nodes later : List Node) :
    textOf (nodes ++ later) = textOf nodes ++ textOf later := by
  induction nodes with
  | nil => rfl
  | cons node nodes ih => rw [List.cons_append, textOf, textOf, ih, List.append_assoc]

theorem textOf_flatMap {α : Type} (f : α → List Node) (items : List α) :
    textOf (items.flatMap f) = items.flatMap fun a => textOf (f a) := by
  induction items with
  | nil => rfl
  | cons a items ih => rw [List.flatMap_cons, List.flatMap_cons, textOf_append, ih]

@[simp] theorem textOf_textNodes (data : List Char) : textOf (textNodes data) = data := by
  unfold textNodes
  split
  · rename_i h
    rw [h]
    rfl
  · rw [textOf, Node.textContent, textOf, List.append_nil]

@[simp] theorem textOf_element (tag : String) (attributes : Attributes) (children : List Node) :
    textOf [.element tag attributes children] = textOf children := by
  rw [textOf, Node.textContent, textOf, List.append_nil]

/-! ## Elements -/

/-- All elements of a tree have the property. -/
inductive Node.All (p : String → Attributes → Prop) : Node → Prop
  | text (data : List Char) : Node.All p (.text data)
  | element {tag : String} {attributes : Attributes} {children : List Node} :
      p tag attributes → (∀ node ∈ children, Node.All p node) →
      Node.All p (.element tag attributes children)

theorem Node.All.mono {p q : String → Attributes → Prop} {node : Node} (h : node.All p)
    (hpq : ∀ tag attributes, p tag attributes → q tag attributes) : node.All q := by
  induction h with
  | text data => exact .text data
  | element htag _ ih => exact .element (hpq _ _ htag) ih

theorem all_textNodes {p : String → Attributes → Prop} {data : List Char} :
    ∀ node ∈ textNodes data, node.All p := by
  intro node hnode
  unfold textNodes at hnode
  split at hnode
  · cases hnode
  · rw [List.mem_singleton.mp hnode]
    exact .text data

mutual

/-- The elements with this tag, in document order: their attributes and children. -/
def Node.elements (tag : String) : Node → List (Attributes × List Node)
  | .text _ => []
  | .element t attributes children =>
      (if t = tag then [(attributes, children)] else []) ++ elementsOf tag children

def elementsOf (tag : String) : List Node → List (Attributes × List Node)
  | [] => []
  | node :: nodes => node.elements tag ++ elementsOf tag nodes

end

@[simp] theorem elementsOf_append (tag : String) (nodes later : List Node) :
    elementsOf tag (nodes ++ later) = elementsOf tag nodes ++ elementsOf tag later := by
  induction nodes with
  | nil => rfl
  | cons node nodes ih =>
      rw [List.cons_append, elementsOf, elementsOf, ih, List.append_assoc]

theorem elementsOf_flatMap {α : Type} (tag : String) (f : α → List Node) (items : List α) :
    elementsOf tag (items.flatMap f) = items.flatMap fun a => elementsOf tag (f a) := by
  induction items with
  | nil => rfl
  | cons a items ih => rw [List.flatMap_cons, List.flatMap_cons, elementsOf_append, ih]

@[simp] theorem elementsOf_textNodes (tag : String) (data : List Char) :
    elementsOf tag (textNodes data) = [] := by
  unfold textNodes
  split
  · rfl
  · rfl

@[simp] theorem elementsOf_element (tag t : String) (attributes : Attributes)
    (children : List Node) :
    elementsOf tag [.element t attributes children] =
      (if t = tag then [(attributes, children)] else []) ++ elementsOf tag children := by
  rw [elementsOf, Node.elements, elementsOf, List.append_nil]

theorem elementsOf_eq_nil {tag : String} {nodes : List Node}
    (h : ∀ node ∈ nodes, node.elements tag = []) : elementsOf tag nodes = [] := by
  induction nodes with
  | nil => rfl
  | cons node nodes ih =>
      rw [elementsOf, h node List.mem_cons_self,
        ih fun other hother => h other (List.mem_cons_of_mem _ hother)]
      rfl

/-- What no element is, none of the elements is. -/
theorem Node.All.elements_eq_nil {p : String → Attributes → Prop} {tag : String} {node : Node}
    (h : node.All p) (hp : ∀ attributes, ¬ p tag attributes) : node.elements tag = [] := by
  induction h with
  | text data => rfl
  | @element t attributes children htag _ ih =>
      have hne : t ≠ tag := by
        rintro rfl
        exact hp _ htag
      rw [Node.elements, if_neg hne, elementsOf_eq_nil ih]
      rfl

/-! ## Ordered lists -/

/-- The number that a property has set. -/
def number? (name : String) (attributes : Attributes) : Option Int :=
  match attributes.lookup name with
  | some (.number n) => some n
  | _ => none

/-- The items with their numbers: the one an item sets, or the next. -/
def numbered (next : Int) : List Node → List (Int × List Node)
  | [] => []
  | .text _ :: nodes => numbered next nodes
  | .element tag attributes children :: nodes =>
      if tag = "li" then
        let n := (number? "value" attributes).getD next
        (n, children) :: numbered (n + 1) nodes
      else numbered next nodes

/-- The items of an ordered list: the first number is the one it starts with, or one. -/
def orderedItems (list : Attributes × List Node) : List (Int × List Node) :=
  numbered ((number? "start" list.1).getD 1) list.2

end AgentGather.Library.Dom
