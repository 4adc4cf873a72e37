import SafeRefactor.Syntax.Recovery.Resume

/-!
# Recovered trees

All readings of a text are advanced token by token, and after each round those that are clearly
worse are dropped, until the cheapest tree of the whole text is known. The first error in that tree
is where the text is blamed.
-/

set_option autoImplicit false

namespace SafeRefactor.Syntax.Recovery

def allowsEmpty (v state : Nat) (anything : Bool) (token : Nat) : Reading Bool := do
  if anything then return false
  else if !(← advancedSinceError v) then return false
  else return (← nextState state (.token token)) ≠ state

def tokenAt (v state lexing : Nat) (anything : Bool) (gap here : Nat) :
    Reading (Option Subtree) := do
  let source ← read
  let layout := (← getHead v).layout
  let row := ((← get).automaton.rows.getD lexing default).actions
  let valid (t : Nat) : Bool := !(row.getD t []).isEmpty
  let fromLayout ← match layoutLexeme? source valid layout here with
    | none => pure none
    | some l =>
      let relays := l.layout ≠ some layout
      let usable ← if here < l.stop || relays then
        pure true else allowsEmpty v state anything l.token
      pure (if usable then
        some (Subtree.mk { symbol := .token l.token, gap, start := l.start, stop := l.stop,
                           layout := l.layout, relays } [])
      else none)
  match fromLayout with
  | some t => return some t
  | none =>
    match source.lexeme? valid here with
    | none => return none
    | some l =>
      let word := String.ofList ((source.rest l.start).take (l.stop - l.start))
      let token ← match if l.keyword then keywords[word]? else none with
        | some k => do
          let usable := !(← actionsOn state (.token k)).isEmpty
          pure (if usable then k else Token.identifier)
        | none => pure l.token
      return some (.mk { symbol := .token token, gap, start := l.start, stop := l.stop,
                         extra := token = 0, keyword := l.keyword } [])

def stumble (source : Source) (here : Nat) : Nat × Nat :=
  let s := ((source.scan here {}).skipMark).skipWhile isSpace
  let start := s.here.offset
  (start, if s.peek? = some '!' then start + 1 else start)

/-- Skips characters that begin no token. The skipped stretch begins at `start`; `stop` is where it
ends so far. -/
def skipUnknown (v state gap start : Nat) : Nat → (stop : Nat) → Reading Subtree
  | 0, stop => return .leaf .error gap start stop
  | fuel + 1, stop => do
    match ← tokenAt v state 0 true gap stop with
    | some _ => return .leaf .error gap start stop
    | none =>
      let source ← read
      let (_, reached) := stumble source stop
      if reached ≠ stop then skipUnknown v state gap start fuel reached
      else if source.rests.size ≤ stop + 1 then return .leaf .error gap start stop
      else skipUnknown v state gap start fuel (stop + 1)

def nextToken (v state : Nat) : Reading Subtree := do
  let source ← read
  let here := (← topKnot v).here
  let usable ← if state = 0 then pure none else tokenAt v state state false here here
  match usable with
  | some t => return t
  | none =>
    match ← tokenAt v state 0 true here here with
    | some t => return t
    | none =>
      let (start, reached) := stumble source here
      let stop := if reached = start then start + 1 else reached
      skipUnknown v state here start source.rests.size stop

def shift (v state : Nat) (look : Subtree) (extra : Bool) : Reading Unit := do
  push v (some (look.asExtra extra)) state
  noteLayout v look

inductive Progress where
  | done
  | closed (head : Option Nat)
  | nothing

def perform (v state : Nat) (look : Subtree) : List Action → Progress → Reading Progress
  | [], p => return p
  | a :: as, p =>
    match a with
    | .shift true => perform v state look as p
    | .shift false => do
      shift v (← nextState state look.symbol) look false
      return .done
    | .skip => do
      shift v state look true
      return .done
    | .reduce head count weight names => do
      let made ← reduce v head count weight names
      let last := match p with
        | .closed h => h
        | _ => none
      perform v state look as (.closed (made.or last))
    | .accept => do
      accept v look
      return .done
    | .recover => do
      recover v look
      return .done

def useToken (v : Nat) : Nat → (look : Subtree) → Reading Unit
  | 0, _ => haltHead v
  | fuel + 1, look => do
    let state := (← topKnot v).state
    match ← perform v state look (← actionsOn state look.symbol) .nothing with
    | .done => return
    | .closed (some n) =>
      renumber n v
      useToken v fuel look
    | .closed none => haltHead v
    | .nothing =>
      let asName := look.info.keyword && look.symbol ≠ .token Token.identifier &&
        !(← actionsOn state (.token Token.identifier)).isEmpty
      if asName then
        useToken v fuel (.mk { look.info with symbol := .token Token.identifier } look.parts)
      else if state = 0 then recover v look
      else
        let h ← getHead v
        let k ← getKnot h.knot
        setHead v { h with status := .paused look, countAtError := k.count }

def advance (v : Nat) : Reading Unit := do
  let source ← read
  let state := (← topKnot v).state
  useToken v (100 * (source.rests.size + 100)) (← nextToken v state)

/-- Advances a head until it comes further than all before it. `last` is the furthest place so far.
-/
def advanceHead (v : Nat) : Nat → (last : Nat) → Reading Nat
  | 0, last => return last
  | fuel + 1, last => do
    if (← getHead v).isActive then
      advance v
      let here := (← topKnot v).here
      if last < here || (0 < v && here = last) then return here
      else advanceHead v fuel last
    else return last

def advanceAll : Nat → (v last : Nat) → Reading Nat
  | 0, _, last => return last
  | fuel + 1, v, last => do
    if v < (← headCount) then
      let source ← read
      let last ← advanceHead v (100 * (source.rests.size + 100)) last
      advanceAll fuel (v + 1) last
    else return last

/-- Compares head `i` with those before it from `j` on: worse heads are dropped, equal ones merged,
and better ones moved to the front. The result is the number of heads up to `i` that remain. -/
def sift (s : Standing) : Nat → (i j : Nat) → Reading Nat
  | 0, i, _ => return i + 1
  | fuel + 1, i, j => do
    if j < i then
      match (← standing j).compare s with
      | .takeFirst =>
        dropHead i
        return i
      | .preferFirst | .neither => if ← merge j i then return i else sift s fuel i (j + 1)
      | .preferSecond =>
        if ← merge j i then return i
        else
          let a ← getHead i
          let b ← getHead j
          setHead i b
          setHead j a
          sift s fuel i (j + 1)
      | .takeSecond =>
        dropHead j
        sift s fuel (i - 1) j
    else return i + 1

def siftAll : Nat → (i : Nat) → (least : Option Nat) → Reading (Option Nat)
  | 0, _, least => return least
  | fuel + 1, i, least => do
    let count ← headCount
    if i < count then
      if (← getHead i).isHalted then
        dropHead i
        siftAll fuel i least
      else
        let s ← standing i
        let least := if s.inError then least else
          match least with
          | some n => some (min n s.cost)
          | none => some s.cost
        siftAll fuel (← sift s count i 0) least
    else return least

def resume : Nat → (i count : Nat) → (going : Bool) → (least : Option Nat) → Reading (Option Nat)
  | 0, _, _, _, least => return least
  | fuel + 1, i, count, going, least => do
    if i < count then
      let h ← getHead i
      match h.status with
      | .paused look =>
        if !going && (← get).accepted < maxHeads then
          let cost ← headCost i
          setHead i { h with status := .active }
          handleError i look
          resume fuel (i + 1) count true (some cost)
        else
          dropHead i
          resume fuel i (count - 1) going least
      | _ => resume fuel (i + 1) count true least
    else return least

def condense : Reading (Option Nat) := do
  let least ← siftAll ((← headCount) + 1) 0 none
  modify fun e => { e with heads := e.heads.take maxHeads }
  let count ← headCount
  resume (count + 1) 0 count false least

def readAll : Nat → (last : Nat) → Reading Unit
  | 0, _ => return
  | fuel + 1, last => do
    if (← headCount) = 0 then return
    let source ← read
    let last ← advanceAll (100 * (source.rests.size + 100)) 0 last
    let least ← condense
    match (← get).finished, least with
    | some t, some n => if t.cost < n then return else readAll fuel last
    | some _, none => return
    | none, _ => readAll fuel last

def tree (cs : List Char) : Node :=
  let source := Source.ofText cs
  let (_, e) := ((readAll (100 * (cs.length + 100)) 0).run source).run .start
  match (e.finished.map fun root => root.shown source none []).bind List.head? with
  | some node => node
  | none =>
    let stop := source.point cs.length
    .mk { kind := .error, start := source.point 0, stop, flawed := true } []

end SafeRefactor.Syntax.Recovery
