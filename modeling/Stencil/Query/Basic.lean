import Stencil.Query.Item

/-!
# Queries

A query takes an item to a list of results, some of which may be failures. Where several operands
have several results, all combinations are taken, the leftmost operand changing slowest. The indices
of a path are such operands: they are chosen before the path is followed.
-/
namespace Stencil

inductive QueryOperator where
  | add
  | sub
  | mul
  | div
  | rem
  | eq
  | ne
  | lt
  | le
  | gt
  | ge
  deriving DecidableEq, Repr

inductive QueryFunction where
  | empty
  | error
  | not
  | length
  | keys
  | keysUnsorted
  | add
  | reverse
  | tostring
  deriving DecidableEq, Repr

mutual

inductive Query where
  | identity
  | literal (item : Item)
  | call (f : QueryFunction)
  /-- The results of the second query on those of the first. -/
  | pipe (f g : Query)
  | both (f g : Query)
  /-- All results in one array. -/
  | collect (f : Query)
  /-- An object with one more member. -/
  | entry (base key value : Query)
  /-- What the path leads to from the results of a query. A lenient step leaves out what it does not
  lead to. -/
  | path (base : Query) (steps : List (Bool × Step))
  /-- Leave out failures. -/
  | attempt (f : Query)
  | negate (f : Query)
  | binary (op : QueryOperator) (f g : Query)
  | and (f g : Query)
  | or (f g : Query)
  /-- The results of the first query that are neither null nor false, or else those of the
  second. -/
  | alternative (f g : Query)
  | cond (test yes no : Query)

/-- A step of a path, whose indices and bounds are results of queries on the whole input. -/
inductive Step where
  | each
  | at (key : Query)
  | after (low : Query)
  | before (high : Query)
  | between (low high : Query)

end

/-- A step of a path with its indices and bounds. -/
inductive Place where
  | each
  | at (key : Item)
  | slice (low high : Option Item)

/-- A result; none is a failure. -/
abbrev Outcome := Option Item

namespace Place

def results (p : Place) (item : Item) : List Outcome :=
  match p with
  | .each => match item.elements? with
    | some items => items.map some
    | none => [none]
  | .at key => [item.at? key]
  | .slice low high => [item.slice? low high]

end Place

namespace QueryOperator

def result (op : QueryOperator) (a b : Item) : Outcome :=
  match op with
  | .add => a.add? b
  | .sub => a.sub? b
  | .mul => a.mul? b
  | .div => a.div? b
  | .rem => a.rem? b
  | .eq => some (.bool (a.order b == .eq))
  | .ne => some (.bool (a.order b != .eq))
  | .lt => some (.bool (a.order b == .lt))
  | .le => some (.bool (a.order b != .gt))
  | .gt => some (.bool (a.order b == .gt))
  | .ge => some (.bool (a.order b != .lt))

end QueryOperator

namespace QueryFunction

/-- Put an item before the first one that is not less. -/
def insertSorted (item : Item) : List Item → List Item
  | [] => [item]
  | other :: rest =>
    if other.order item == .lt then other :: insertSorted item rest else item :: other :: rest

def results (f : QueryFunction) (item : Item) : List Outcome :=
  match f with
  | .empty => []
  | .error => [none]
  | .not => [some (.bool !item.isTruthy)]
  | .length => [item.length?]
  | .keys => [item.keys?.map fun keys => .arr (keys.foldr insertSorted [])]
  | .keysUnsorted => [item.keys?.map .arr]
  | .add => [item.elements?.bind fun items => items.foldlM Item.add? .null]
  | .reverse => match item with
    | .arr items => [some (.arr items.reverse)]
    | _ => [none]
  | .tostring => [some (.str item.display)]

end QueryFunction

namespace Query

/-- Go on with everything that is no failure. -/
def andThen {α β : Type} (outcomes : List (Option α)) (f : α → List (Option β)) :
    List (Option β) :=
  outcomes.flatMap fun
    | some a => f a
    | none => [none]

def memberResult (base key value : Item) : Outcome :=
  match base, key with
  | .obj members, .str name => some (.obj (Item.put name value members))
  | _, _ => none

/-- What places lead to one after the other. -/
def follow : List (Bool × Place) → Item → List Outcome
  | [], item => [some item]
  | (lenient, p) :: places, item =>
    let outcomes := p.results item
    andThen (if lenient then outcomes.filter Option.isSome else outcomes) (follow places)

mutual

def run : Query → Item → List Outcome
  | .identity, item => [some item]
  | .literal v, _ => [some v]
  | .call f, item => f.results item
  | .pipe f g, item => andThen (f.run item) g.run
  | .both f g, item => f.run item ++ g.run item
  | .collect f, item => [((f.run item).mapM id).map .arr]
  | .entry base key value, item =>
    andThen (base.run item) fun b => andThen (key.run item) fun k =>
      andThen (value.run item) fun v => [memberResult b k v]
  | .path base steps, item => andThen (base.run item) fun b =>
    andThen (places steps item) fun chosen => follow chosen b
  | .attempt f, item => (f.run item).filter Option.isSome
  | .negate f, item => andThen (f.run item) fun v => [v.neg?]
  | .binary op f g, item =>
    andThen (f.run item) fun a => andThen (g.run item) fun b => [op.result a b]
  | .and f g, item => andThen (f.run item) fun a =>
    if a.isTruthy then andThen (g.run item) fun b => [some (.bool b.isTruthy)]
    else [some (.bool false)]
  | .or f g, item => andThen (f.run item) fun a =>
    if a.isTruthy then [some (.bool true)]
    else andThen (g.run item) fun b => [some (.bool b.isTruthy)]
  | .alternative f g, item =>
    let holding := (f.run item).filter fun outcome => outcome.all Item.isTruthy
    if holding.isEmpty then g.run item else holding
  | .cond test yes no, item => andThen (test.run item) fun c =>
    if c.isTruthy then yes.run item else no.run item

/-- All choices of indices and bounds for the steps of a path. -/
def places : List (Bool × Step) → Item → List (Option (List (Bool × Place)))
  | [], _ => [some []]
  | (lenient, step) :: steps, item =>
    andThen (choices step item) fun p =>
      andThen (places steps item) fun chosen => [some ((lenient, p) :: chosen)]

/-- The places that a step stands for. -/
def choices : Step → Item → List (Option Place)
  | .each, _ => [some .each]
  | .at key, item => andThen (key.run item) fun k => [some (.at k)]
  | .after low, item => andThen (low.run item) fun l => [some (.slice (some l) none)]
  | .before high, item => andThen (high.run item) fun h => [some (.slice none (some h))]
  | .between low high, item =>
    andThen (low.run item) fun l => andThen (high.run item) fun h =>
      [some (.slice (some l) (some h))]

end

/-- The results before the first failure. -/
def answers (q : Query) (item : Item) : List Item :=
  ((q.run item).takeWhile Option.isSome).filterMap id

end Query

end Stencil
