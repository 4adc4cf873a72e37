import SafeRefactor.Syntax.Fault
import SafeRefactor.Syntax.Parser
import SafeRefactor.Syntax.Recovery.Recovered

/-!
# Syntax trees of source texts

A tree together with the text it was read from. `Tree.parse` accepts a text only if all of it is
understood and nothing is nested too deeply; otherwise it says where that first fails.
-/

set_option autoImplicit false

namespace SafeRefactor.Syntax

structure Tree where
  source : String
  root : Node

namespace Tree

def lines (t : Tree) : List String := Text.lines t.source

def text (t : Tree) (n : Node) : String :=
  String.ofList ((t.source.toList.drop n.start.offset).take (n.stop.offset - n.start.offset))

def lineText (t : Tree) (line : Nat) : String :=
  if line = 0 then "" else t.lines.getD (line - 1) ""

def linesText (t : Tree) (first last : Nat) : String :=
  if first = 0 ∨ last < first then ""
  else Text.join "\n" ((t.lines.drop (first - 1)).take (last - first + 1))

def indentation (t : Tree) (line : Nat) : String :=
  String.ofList ((t.lineText line).toList.takeWhile fun c => c = ' ' || c = '\t')

def namesIn (t : Tree) (nodes : List Node) : List String :=
  (nodes.filter (·.has .identifier)).map t.text

def namesOf (t : Tree) (n : Node) : List String := t.namesIn n.preorder

def sites (t : Tree) : List Cursor := Cursor.sites t.root

def nodes (t : Tree) : List Node := t.sites.map (·.node)

def names (t : Tree) : List String := t.namesIn t.nodes

def functions (t : Tree) : List Cursor := t.sites.filter fun c => c.node.has .functionDefinition

def rootOf (cs : List Char) : Node :=
  match parse? cs with
  | some root => root
  | none => Recovery.tree cs

def parse (source : String) : Except Fault Tree :=
  let root := rootOf source.toList
  match root.firstFault with
  | some f => .error f
  | none =>
    match root.firstTooDeep with
    | some f => .error f
    | none => .ok ⟨source, root⟩

def validates (source : String) : Bool :=
  match parse source with
  | .ok _ => true
  | .error _ => false

end Tree

end SafeRefactor.Syntax
