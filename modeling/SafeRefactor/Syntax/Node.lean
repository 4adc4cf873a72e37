import SafeRefactor.Syntax.Form
import SafeRefactor.Text.Lines

/-!
# Syntax nodes

A node is labelled with what it is, the role it plays in its parent and the stretch of text it
covers, and has a list of children. Tokens without a form of their own, such as operators and
keywords, are nodes too, so that the children of a node in order spell it out.
-/

set_option autoImplicit false

namespace SafeRefactor.Syntax

structure Point where
  offset : Nat
  row : Nat
  column : Nat
  deriving DecidableEq, Repr, Inhabited

namespace Point

def origin : Point := ⟨0, 0, 0⟩

def advance (p : Point) (c : Char) : Point :=
  if c = '\n' then ⟨p.offset + 1, p.row + 1, 0⟩
  else ⟨p.offset + 1, p.row, p.column + Text.byteWidth c⟩

end Point

inductive Role where
  | function
  | object
  | left
  | right
  | operator
  | typeHint
  | name
  | parameters
  | body
  | returnType
  | alternative
  deriving DecidableEq, Repr

inductive Kind where
  | named (form : Form)
  | token (spelling : String)
  | error
  deriving DecidableEq, Repr

def Kind.name : Kind → String
  | named f => f.name
  | token s => s
  | error => "ERROR"

structure Label where
  kind : Kind
  role : Option Role := none
  start : Point
  stop : Point
  missing : Bool := false
  flawed : Bool := false
  deriving DecidableEq, Repr

inductive Node where
  | mk (label : Label) (children : List Node)
  deriving Repr

namespace Node

def label : Node → Label
  | mk l _ => l

def children : Node → List Node
  | mk _ cs => cs

def kind (n : Node) : Kind := n.label.kind

def role (n : Node) : Option Role := n.label.role

def start (n : Node) : Point := n.label.start

def stop (n : Node) : Point := n.label.stop

def has (n : Node) (f : Form) : Bool := n.kind = .named f

def isToken (n : Node) (spelling : String) : Bool := n.kind = .token spelling

def isNamed (n : Node) : Bool :=
  match n.kind with
  | .named _ => true
  | .token _ => false
  | .error => true

def child? (n : Node) (r : Role) : Option Node := n.children.find? fun c => c.role = some r

def namedChildren (n : Node) : List Node := n.children.filter fun c => c.isNamed && !c.has .comment

def opensScope (n : Node) : Bool :=
  match n.kind with
  | .named f => f.opensScope
  | _ => false

def line (n : Node) : Nat := n.start.row + 1

def column (n : Node) : Nat := n.start.column + 1

def endLine (n : Node) : Nat :=
  if n.stop.column = 0 ∧ n.start.row < n.stop.row then n.stop.row else n.stop.row + 1

mutual

def size : Node → Nat
  | mk _ cs => sizeAll cs + 1

def sizeAll : List Node → Nat
  | [] => 0
  | n :: ns => size n + sizeAll ns

end

mutual

def preorder : Node → List Node
  | mk l cs => mk l cs :: preorderAll cs

def preorderAll : List Node → List Node
  | [] => []
  | n :: ns => preorder n ++ preorderAll ns

end

mutual

def same : Node → Node → Bool
  | mk l cs, mk l' cs' => l = l' && sameAll cs cs'

def sameAll : List Node → List Node → Bool
  | [], [] => true
  | n :: ns, n' :: ns' => same n n' && sameAll ns ns'
  | _, _ => false

end

mutual

theorem same_iff : ∀ a b : Node, same a b = true ↔ a = b
  | mk l cs, mk l' cs' => by simp [same, sameAll_iff cs cs']

theorem sameAll_iff : ∀ ns ns' : List Node, sameAll ns ns' = true ↔ ns = ns'
  | [], [] => by simp [sameAll]
  | [], _ :: _ => by simp [sameAll]
  | _ :: _, [] => by simp [sameAll]
  | n :: ns, n' :: ns' => by simp [sameAll, same_iff n n', sameAll_iff ns ns']

end

instance : DecidableEq Node := fun a b => decidable_of_iff _ (same_iff a b)

end Node

end SafeRefactor.Syntax
