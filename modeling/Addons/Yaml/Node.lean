import Addons.Yaml.Token

/-!
# YAML documents as trees

A node is a scalar, a sequence, a mapping, or an alias that stands for another node. In `Node ρ` the
anchors are named by `ρ`: first by their text, then, within a document, by a number.
-/

namespace Addons.Yaml

/-- Anchor and tag of a node. -/
structure Props (ρ : Type) where
  anchor : Option ρ := none
  tag : Option (List Char) := none
  deriving Repr, Inhabited

inductive Node (ρ : Type) where
  | alias (target : ρ)
  | scalar (props : Props ρ) (style : ScalarStyle) (text : List Char)
  | seq (props : Props ρ) (items : List (Node ρ))
  | map (props : Props ρ) (entries : List (Node ρ × Node ρ))
  deriving Repr, Inhabited

/-- The node of a place where nothing is written. -/
def Node.empty {ρ : Type} : Node ρ := .scalar {} .plain []

/-- A document: its root, unless the whole stream is empty, and the node of each anchor. -/
structure Document where
  root : Option (Node Nat)
  targets : List (Nat × Node Nat)
  deriving Repr, Inhabited

/-- The node of an anchor; of nodes with the same number the last counts. -/
def Document.target? (d : Document) (n : Nat) : Option (Node Nat) := d.targets.reverse.lookup n

namespace Node

mutual

/-- Number the anchors in the order they appear, and point aliases at them; none if an alias names no
anchor before it. A new anchor gets the number of names known so far, so that one that reuses a name
shares its number with the next new name. -/
def number? (names : List (List Char × Nat)) :
    Node (List Char) → Option (Node Nat × List (List Char × Nat))
  | .alias target => do return (.alias (← names.lookup target), names)
  | .scalar p style text =>
    let (p, names) := numberProps names p
    some (.scalar p style text, names)
  | .seq p items => do
    let (p, names) := numberProps names p
    let (items, names) ← numberItems? names items
    return (.seq p items, names)
  | .map p entries => do
    let (p, names) := numberProps names p
    let (entries, names) ← numberEntries? names entries
    return (.map p entries, names)

def numberItems? (names : List (List Char × Nat)) :
    List (Node (List Char)) → Option (List (Node Nat) × List (List Char × Nat))
  | [] => some ([], names)
  | n :: rest => do
    let (n, names) ← number? names n
    let (rest, names) ← numberItems? names rest
    return (n :: rest, names)

def numberEntries? (names : List (List Char × Nat)) :
    List (Node (List Char) × Node (List Char)) →
      Option (List (Node Nat × Node Nat) × List (List Char × Nat))
  | [] => some ([], names)
  | (k, v) :: rest => do
    let (k, names) ← number? names k
    let (v, names) ← number? names v
    let (rest, names) ← numberEntries? names rest
    return ((k, v) :: rest, names)

def numberProps (names : List (List Char × Nat)) (p : Props (List Char)) :
    Props Nat × List (List Char × Nat) :=
  match p.anchor with
  | none => (⟨none, p.tag⟩, names)
  | some name => (⟨some names.length, p.tag⟩, (name, names.length) :: names.filter fun e => e.1 != name)

end

mutual

/-- The anchored nodes of a tree, outer before inner and earlier before later. -/
def anchored : Node Nat → List (Nat × Node Nat)
  | .alias _ => []
  | .scalar p style text => mark p (.scalar p style text)
  | .seq p items => mark p (.seq p items) ++ anchoredItems items
  | .map p entries => mark p (.map p entries) ++ anchoredEntries entries

def anchoredItems : List (Node Nat) → List (Nat × Node Nat)
  | [] => []
  | n :: rest => anchored n ++ anchoredItems rest

def anchoredEntries : List (Node Nat × Node Nat) → List (Nat × Node Nat)
  | [] => []
  | (k, v) :: rest => anchored k ++ anchored v ++ anchoredEntries rest

/-- The node under its anchor, if it has one. -/
def mark (p : Props Nat) (n : Node Nat) : List (Nat × Node Nat) :=
  match p.anchor with
  | some a => [(a, n)]
  | none => []

end

mutual

/-- Number of steps to walk a tree: one for a leaf, two for a collection. -/
def steps {ρ : Type} : Node ρ → Nat
  | .alias _ => 1
  | .scalar _ _ _ => 1
  | .seq _ items => 2 + stepsItems items
  | .map _ entries => 2 + stepsEntries entries

def stepsItems {ρ : Type} : List (Node ρ) → Nat
  | [] => 0
  | n :: rest => steps n + stepsItems rest

def stepsEntries {ρ : Type} : List (Node ρ × Node ρ) → Nat
  | [] => 0
  | (k, v) :: rest => steps k + steps v + stepsEntries rest

end

/-- The document with a given root. -/
def document? (root : Node (List Char)) : Option Document := do
  let (root, _) ← number? [] root
  return ⟨some root, anchored root⟩

end Node

end Addons.Yaml
