import Mathlib
import Stencil.Proofs.Following

/-!
# Recognition

Every parser of the grammar follows its goals: where it succeeds it has read what they ask for, and
where it fails so does the stack of goals, at the token that the parser blames. Brackets are tokens,
so that the depth to which a parser nests is enough for what is left of a text.
-/
namespace Stencil.Parser

open Goal

variable {α : Type} {k : Nat} {ts rest : List Token} {t : Token}

section Grammar

variable {inner : Parser Expr} {level : Nat}

theorem chain_discharges (level : Nat) {operand : Parser Expr}
    (h : Discharges k operand (ofLevel (level + 1)))
    (hdot : operatorAt level (.symbol .dot) = none) :
    Discharges k (chain operand (operatorAt level)) (ofLevel (level + 1) ++ [more level]) := by
  have hsome (left : Expr) (op : Operator) :
      Follows k (do return some (Expr.binary op left (← operand)))
        (ofLevel (level + 1) ++ [more level]) (afterStep fun _ => [more level]) :=
    h.andThen fun right => .ret (afterStep fun _ => [more level]) (some _)
  refine h.andThen fun first => .extend (fun _ => [more level]) (fun left => ?_) ?_ ?_ first
  · refine .choose _ rfl hdot (fun _ => rfl) (fun _ => rfl) (fun op => ?_)
      (.ret (afterStep fun _ => [more level]) none)
    rw [List.append_nil]
    exact hsome left op
  · intro left ts e rest hok
    refine take?_progress ?_ ?_ hok
    · exact fun op => (hsome left op).shortens
    · rfl
  · exact fun _ σ => scan_pass rfl next_nil

theorem need_value_accords (h : Next (fun kind => kind.isSymbol .leftParen = false) ts)
    (σ : List Goal) : Accords (fun _ rest => scan σ rest) (need "a value" atom? ts)
      (scan (value :: σ) ts) := by
  refine Follows.need_accords rfl rfl (fun _ => rfl) (h.mono fun kind hkind => ?_) σ
  simp only [Goal.take?, ofValue?, hkind]
  cases atom? kind <;> rfl

theorem needSymbol_discharges (what : String) {s : Symbol} {g : Goal} (hg : g.mayEnd = false)
    (hs : s ≠ .dot) (hbeneath : ∀ σ, g.beneath σ = σ)
    (htake : ∀ kind, g.take? kind = if kind.isSymbol s then some [] else none) :
    Discharges k (needSymbol what s) [g] := by
  refine .need hg ?_ hbeneath fun kind => ?_
  · exact if_neg (by simpa [TokenKind.isSymbol] using hs)
  · rw [htake]
    split <;> rfl

theorem name_discharges (what : String) : Discharges k (name what) [.name] :=
  .need rfl rfl (fun _ => rfl) fun kind => by cases kind <;> rfl

/-- What stands behind an opening bracket. -/
def grouped (inner : Parser Expr) : Parser Expr := do
  let first ← inner
  if ← acceptSymbol .dotDot then
    let last ← inner
    needSymbol "')'" .rightParen
    return .range first last
  else
    needSymbol "')'" .rightParen
    return first

theorem primary_eq (inner : Parser Expr) : primary inner = (do
    if ← acceptSymbol .leftParen then grouped inner else need "a value" atom?) := rfl

theorem grouped_discharges (h : Discharges k inner expression) :
    Discharges k (grouped inner) (expression ++ [bound, rightParen]) := by
  have hlast (first : Expr) : Discharges k (do
        let last ← inner
        needSymbol "')'" .rightParen
        return Expr.range first last) (expression ++ [rightParen]) :=
    h.andThen fun last => (needSymbol_discharges _ rfl (by decide) (fun _ => rfl) fun _ => rfl).map
  exact h.andThen fun first => .ifAccept rfl rfl (fun _ => rfl) (fun _ => rfl) (hlast first)
    (needSymbol_discharges _ rfl (by decide) (fun _ => rfl) fun _ => rfl).map

theorem primary_discharges (h : Discharges k inner expression) :
    Discharges (k + 1) (primary inner) [value] := by
  rw [primary_eq]
  refine .accepting (expression ++ [bound, rightParen]) rfl (fun _ => rfl)
    (fun kind hkind => ?_) (Nat.le_refl _) (grouped_discharges h) (Shortens.need _ _)
    fun ts σ hnext _ => ?_
  · exact if_pos hkind
  · exact need_value_accords hnext σ

theorem member_accords (base : Expr) (ts : List Token) (hpoint : t.kind.isSymbol .dot)
    (σ : List Goal) :
    Accords (fun _ rest => scan (steps :: σ) rest) (member base (t :: ts))
      (scan (steps :: σ) (t :: ts)) := by
  have htake : Goal.steps.take? t.kind = some [.member, .steps] := if_pos hpoint
  have hstep : step t.kind (steps :: σ) = some (Goal.member :: steps :: σ) := step_take htake
  cases ts with
  | nil =>
    rw [scan, hstep, hpoint]
    exact ⟨[t], rfl, fun _ => rfl⟩
  | cons next rest =>
    have hscan : scan (steps :: σ) (t :: next :: rest)
        = scan (Goal.member :: steps :: σ) (next :: rest) := by
      rw [scan, hstep, hpoint]
      rfl
    rw [hscan]
    obtain ⟨kind, span⟩ := next
    cases kind with
    | ident key => exact @scan_take .member [] _ ⟨.ident key, span⟩ _ rfl rfl
    | int i => exact @scan_take .member [] _ ⟨.int i, span⟩ _ rfl rfl
    | _ => exact ⟨_, scan_reject rfl (next_cons rfl), fun _ => rfl⟩

theorem indexStep_accords (h : Discharges k inner expression) (base : Expr)
    (hts : ts.length ≤ k + 1)
    (hpoint : Next (fun kind => kind.isSymbol .dot = false) ts) (σ : List Goal) :
    Accords (fun found rest => scan (afterStep (fun _ => [steps]) found ++ σ) rest)
      (indexStep? inner base ts) (scan (steps :: σ) ts) := by
  have hindex : Follows k (do
        let key ← inner
        needSymbol "']'" .rightBracket
        return some (Expr.index base key))
      (expression ++ [rightBracket, steps]) (afterStep fun _ => [steps]) :=
    h.andThen fun key =>
      (needSymbol_discharges _ rfl (by decide) (fun _ => rfl) fun _ => rfl).andThen fun _ =>
      .ret (afterStep fun _ => [steps]) (some _)
  rcases accept_cases (TokenKind.isSymbol .leftBracket) ts with hnext | ⟨t, ts, rfl, hbracket⟩
  · have hpass : Next (fun kind => Goal.steps.take? kind = none) ts := fun t ht => by
      simp only [Goal.take?, hpoint t ht, hnext t ht]
      rfl
    rw [indexStep?, acceptSymbol, accept_bind_false hnext, scan_pass rfl hpass]
    rfl
  · have htake : Goal.steps.take? t.kind = some (expression ++ [rightBracket, steps]) := by
      simp only [Goal.take?, hpoint t rfl, hbracket]
      rfl
    rw [indexStep?, acceptSymbol, accept_bind_true hbracket, scan_take htake (hpoint t rfl)]
    exact hindex.accords ts σ (Nat.le_of_succ_le_succ hts)

theorem member_progress {base e : Expr} (h : member base ts = .ok (e, rest)) :
    rest.length < ts.length := by
  unfold member at h
  split at h <;> cases h
  · exact Nat.lt_succ_of_lt (Nat.lt_succ_self _)
  · exact Nat.lt_succ_of_lt (Nat.lt_succ_self _)

theorem pathStep?_of_dot (base : Expr) (hpoint : t.kind.isSymbol .dot) :
    pathStep? inner base (t :: ts) = (member base >>= fun e => pure (some e)) (t :: ts) := by
  rw [pathStep?, get_bind]
  exact congrFun (if_pos hpoint) _

theorem pathStep_progress (h : Shortens inner) (base : Expr) (ts : List Token) (e : Expr)
    (rest : List Token) (hok : pathStep? inner base ts = .ok (some e, rest)) :
    rest.length < ts.length := by
  rcases accept_cases (TokenKind.isSymbol .dot) ts with hpoint | ⟨t, ts, rfl, hpoint⟩
  · rw [pathStep?_of_not_dot ts hpoint] at hok
    have hindex : Shortens (do
        let key ← inner
        needSymbol "']'" .rightBracket
        return some (Expr.index base key)) :=
      h.bind fun key => (Shortens.need _ _).bind fun _ => .ret _
    exact ifAccept_progress hindex (none_progress e) hok
  · rw [pathStep?_of_dot base hpoint] at hok
    obtain ⟨e', mid, hmember, hret⟩ := bind_eq_ok.mp hok
    cases hret
    exact member_progress hmember

theorem pathStep_follows (h : Discharges k inner expression) (base : Expr) :
    Follows (k + 1) (pathStep? inner base) [steps] (afterStep fun _ => [steps]) where
  accords ts σ hts := by
    rcases accept_cases (TokenKind.isSymbol .dot) ts with hpoint | ⟨t, ts, rfl, hpoint⟩
    · rw [pathStep?_of_not_dot ts hpoint]
      exact indexStep_accords h base hts hpoint σ
    · have haccords := member_accords base ts hpoint σ
      rw [pathStep?_of_dot base hpoint]
      cases hok : member base (t :: ts) with
      | error s =>
        rw [hok] at haccords
        rw [bind_of_error hok]
        exact haccords
      | ok found =>
        rw [hok] at haccords
        rw [bind_of_ok hok]
        exact haccords
  shortens := by
    refine Shortens.get.bind fun tokens => ?_
    split
    · exact Shortens.bind (fun _ _ _ hok => (member_progress hok).le) fun e => .ret _
    · refine (Shortens.accept _).bind fun accepted => ?_
      split
      · exact h.shortens.bind fun key => (Shortens.need _ _).bind fun _ => .ret _
      · exact .ret _

theorem path_discharges (h : Discharges k inner expression) :
    Discharges (k + 1) (path inner) (ofLevel 6) := by
  refine (primary_discharges h).andThen fun first => ?_
  exact .extend (fun _ => [steps]) (pathStep_follows h) (pathStep_progress h.shortens)
    (fun _ σ => scan_pass rfl next_nil) first

theorem sum_discharges (h : Discharges k inner expression) :
    Discharges (k + 1) (sum inner) (ofLevel 4) :=
  chain_discharges 4 (chain_discharges 5 (path_discharges h) rfl) rfl

theorem comparison_discharges (h : Discharges k inner expression) :
    Discharges (k + 1) (comparison inner) (ofLevel 3) := by
  refine (sum_discharges h).andThen fun left => ?_
  exact .choose _ rfl rfl (fun _ => rfl) (fun _ => rfl) (fun op => (sum_discharges h).map)
    (.ret (fun _ => []) left)

theorem notStep_follows (n : Nat) :
    Follows k (notStep? n) [marks] (afterStep fun _ => [marks]) := by
  rw [notStep?, acceptWord, accept_bind]
  refine .choose [marks] rfl rfl (fun _ => rfl) (fun kind => ?_) (fun _ => ?_) ?_
  · simp only [Goal.take?]
    split <;> rfl
  · exact .ret (afterStep fun _ => [marks]) (some (n + 1))
  · exact .ret (afterStep fun _ => [marks]) none

theorem notStep_progress (n : Nat) (ts : List Token) (m : Nat) (rest : List Token)
    (h : notStep? n ts = .ok (some m, rest)) : rest.length < ts.length := by
  rw [notStep?, acceptWord, accept_bind] at h
  refine take?_progress ?_ ?_ h
  · exact fun _ => .ret _
  · rfl

theorem negation_discharges (h : Discharges k inner expression) :
    Discharges (k + 1) (negation inner) (ofLevel 2) := by
  have hmarks : Discharges (k + 1) (extend notStep? 0) [marks] :=
    .extend (fun _ => [marks]) notStep_follows notStep_progress
      (fun _ σ => scan_pass rfl next_nil) 0
  exact hmarks.andThen fun n => (comparison_discharges h).map

theorem disjunction_discharges (h : Discharges k inner expression) :
    Discharges (k + 1) (disjunction inner) expression :=
  chain_discharges 0 (chain_discharges 1 (negation_discharges h) rfl) rfl

/-- As many tokens as a parser may nest brackets are read as the goals ask for. -/
theorem nested_discharges (n : Nat) : Discharges n (nested n) expression := by
  induction n with
  | zero =>
    refine ⟨fun ts σ hts => ?_, Shortens.fail _⟩
    rw [List.length_eq_zero_iff.mp (Nat.le_zero.mp hts)]
    exact ⟨[], rfl, fun _ => rfl⟩
  | succ n ih => exact disjunction_discharges ih

section Filters

/-- Whether an argument with a name has been read. -/
def Arguments.named (a : Arguments) : Bool := !a.2.isEmpty

/-- The goals after an argument. -/
def furtherGoals (a : Arguments) : List Goal := [furtherArguments a.named]

/-- The name of an argument and what follows its colon. -/
def namedArgument? : List Token → Option (String × List Token)
  | ⟨.ident label, _⟩ :: ⟨.symbol .colon, _⟩ :: rest => some (label, rest)
  | _ => none

/-- An argument without a name, which may not come after one with a name. -/
def positional (inner : Parser Expr) (before : Arguments) : Parser Arguments := do
  if before.2.isEmpty then return (before.1 ++ [← inner], []) else stuck .positionalAfterNamed

theorem argument_of_named {before : Arguments} {label : String}
    (h : namedArgument? ts = some (label, rest)) : argument inner before ts
      = (inner >>= fun e => pure (before.1, before.2 ++ [(label, e)])) rest := by
  rw [argument, get_bind]
  unfold namedArgument? at h
  split at h
  · cases h
    rfl
  · cases h

theorem argument_of_positional {before : Arguments} (h : namedArgument? ts = none) :
    argument inner before ts = positional inner before ts := by
  rw [argument, get_bind]
  rcases ts with _ | ⟨⟨kind, span⟩, _ | ⟨⟨kind', span'⟩, rest⟩⟩
  · rfl
  · cases kind <;> rfl
  · cases kind with
    | ident label =>
      cases kind' with
      | symbol s =>
        cases s with
        | colon => cases h
        | _ => rfl
      | _ => rfl
    | _ => rfl

theorem namedArgument?_length {label : String} (h : namedArgument? ts = some (label, rest)) :
    rest.length ≤ ts.length := by
  unfold namedArgument? at h
  split at h <;> cases h
  exact (Nat.le_succ _).trans (Nat.le_succ _)

theorem take?_label {label : String} (h : TokenKind.isWord "not" (.ident label) = false) :
    (Goal.argument false).take? (.ident label) = some (key true :: operations) := by
  simp only [Goal.take?, h]
  rfl

/-- With its colon a name is a key, and what follows is an expression. -/
theorem scan_named {label : String} (h : namedArgument? ts = some (label, rest)) (named : Bool)
    (σ : List Goal) : scan (Goal.argument named :: furtherArguments named :: σ) ts
      = scan (expression ++ furtherArguments true :: σ) rest := by
  unfold namedArgument? at h
  split at h
  · cases h
    cases named with
    | true => rfl
    | false =>
      cases hnot : TokenKind.isWord "not" (.ident label) with
      | true =>
        rw [isWord_eq_true.mp hnot]
        rfl
      | false =>
        rw [scan, step, take?_label hnot]
        rfl
  · cases h

theorem next_of_unnamed {label : String} {span : Span}
    (h : namedArgument? (⟨.ident label, span⟩ :: ts) = none) :
    Next (fun kind => kind.isSymbol .colon = false) ts := by
  cases ts with
  | nil => exact next_nil
  | cons t ts =>
    obtain ⟨kind, span'⟩ := t
    refine next_cons (isSymbol_eq_false fun hkind => ?_)
    obtain rfl : kind = .symbol .colon := hkind
    cases h

theorem scan_key_pass (h : Next (fun kind => kind.isSymbol .colon = false) ts) (operand : Bool)
    (σ : List Goal) : scan (key operand :: σ) ts = scan σ ts := by
  refine scan_pass rfl (h.mono fun kind hkind => ?_)
  simp only [Goal.take?, hkind]
  rfl

theorem atom?_ident (label : String) : ∃ e, atom? (.ident label) = some e := by
  unfold atom?
  split
  all_goals first
    | exact ⟨_, rfl⟩
    | rename_i hother
      exact absurd rfl (hother label)

theorem step_positional (kind : TokenKind) (hname : ∀ label, kind ≠ .ident label) (σ : List Goal) :
    step kind (Goal.argument false :: σ) = step kind (expression ++ σ) := by
  have htake : (Goal.argument false).take? kind = (ofValue? kind).map (· ++ operations) := by
    cases kind with
    | ident label => exact absurd rfl (hname label)
    | _ => rfl
  have hmarks : marks.take? kind = none := by
    cases kind with
    | ident label => exact absurd rfl (hname label)
    | _ => rfl
  have hvalue : step kind (expression ++ σ) = step kind (value :: (operations ++ σ)) :=
    step_pass rfl hmarks
  rw [hvalue]
  cases hkind : value.take? kind with
  | none =>
    have hargument : (Goal.argument false).take? kind = none :=
      htake.trans (congrArg (Option.map (· ++ operations)) hkind)
    rw [step_reject rfl hargument, step_reject rfl hkind]
  | some gs =>
    have hargument : (Goal.argument false).take? kind = some (gs ++ operations) :=
      htake.trans (congrArg (Option.map (· ++ operations)) hkind)
    rw [step_take hargument, step_take hkind]
    exact congrArg some (List.append_assoc gs operations σ)

/-- Without a colon a name is the first operand of an expression. -/
theorem scan_positional (h : namedArgument? ts = none) (σ : List Goal) :
    scan (Goal.argument false :: σ) ts = scan (expression ++ σ) ts := by
  cases ts with
  | nil => rfl
  | cons t ts =>
    obtain ⟨kind, span⟩ := t
    by_cases hname : ∃ label, kind = .ident label
    · obtain ⟨label, rfl⟩ := hname
      have hcolon := next_of_unnamed h
      cases hnot : TokenKind.isWord "not" (.ident label) with
      | true =>
        obtain rfl : label = "not" := by simpa [TokenKind.isWord] using hnot
        exact scan_key_pass hcolon false (expression ++ σ)
      | false =>
        obtain ⟨e, he⟩ := atom?_ident label
        have hmarks : marks.take? (.ident label) = none := by
          simp only [Goal.take?, hnot]
          rfl
        have hvalue : value.take? (.ident label) = some [] := by
          simp only [Goal.take?, ofValue?, he]
          rfl
        have hexpression : step (.ident label) (expression ++ σ) = some (operations ++ σ) := by
          change step _ (marks :: value :: (operations ++ σ)) = _
          rw [step_pass rfl hmarks, step, hvalue]
          rfl
        rw [scan, step, take?_label hnot, scan, hexpression]
        exact scan_key_pass hcolon true (operations ++ σ)
    · exact scan_congr (step_positional kind (fun label hlabel => hname ⟨label, hlabel⟩) σ)

theorem scan_unnamed (h : namedArgument? ts = none) (σ : List Goal) :
    ∃ fault, scan (Goal.argument true :: σ) ts = .error fault := by
  cases ts with
  | nil => exact ⟨[], rfl⟩
  | cons t ts =>
    obtain ⟨kind, span⟩ := t
    cases kind with
    | ident label =>
      have hcolon := next_of_unnamed h
      have hreject : Next (fun kind => Goal.colon.take? kind = none) ts :=
        hcolon.mono fun kind hkind => by
          simp only [Goal.take?, hkind]
          rfl
      exact ⟨ts, (scan_reject rfl hreject :)⟩
    | _ => exact ⟨_, rfl⟩

theorem named_append (before : Arguments) (entry : String × Expr) :
    Arguments.named (before.1, before.2 ++ [entry]) = true := by
  simp [Arguments.named]

theorem argument_shortens (h : Shortens inner) (before : Arguments) :
    Shortens (argument inner before) := by
  intro ts a rest hok
  cases hn : namedArgument? ts with
  | some found =>
    rw [argument_of_named hn] at hok
    have hrest : Shortens (inner >>= fun e => pure (before.1, before.2 ++ [(found.1, e)])) :=
      h.bind fun e => .ret _
    exact (hrest _ a rest hok).trans (namedArgument?_length hn)
  | none =>
    rw [argument_of_positional hn] at hok
    unfold positional at hok
    split at hok
    · exact (h.bind fun e => .ret _ : Shortens (inner >>= fun e => pure (before.1 ++ [e], [])))
        ts a rest hok
    · cases hok

theorem argument_follows (h : Discharges k inner expression) (before : Arguments) :
    Follows k (argument inner before)
      [Goal.argument before.named, furtherArguments before.named]
      furtherGoals where
  accords ts σ hts := by
    cases hn : namedArgument? ts with
    | some found =>
      have hvalue : Follows k (inner >>= fun e => pure (before.1, before.2 ++ [(found.1, e)]))
          (expression ++ [furtherArguments true]) furtherGoals := by
        refine h.andThen fun e => ?_
        rw [← named_append before (found.1, e)]
        exact .ret furtherGoals _
      have hscan := scan_named hn before.named σ
      have haccords := hvalue.accords found.2 σ ((namedArgument?_length hn).trans hts)
      rw [argument_of_named hn]
      exact hscan ▸ haccords
    | none =>
      rw [argument_of_positional hn, positional]
      cases hbefore : before.2.isEmpty with
      | true =>
        have hnamed : before.named = false := by rw [Arguments.named, hbefore]; rfl
        have hvalue : Follows k (inner >>= fun e => pure ((before.1 ++ [e], []) : Arguments))
            (expression ++ [furtherArguments false]) furtherGoals :=
          h.andThen fun e => .ret furtherGoals _
        have haccords := hvalue.accords ts σ hts
        rw [hnamed]
        exact (scan_positional hn (furtherArguments false :: σ)).symm ▸ haccords
      | false =>
        have hnamed : before.named = true := by rw [Arguments.named, hbefore]; rfl
        obtain ⟨fault, hfault⟩ := scan_unnamed hn (furtherArguments true :: σ)
        rw [hnamed]
        exact ⟨fault, hfault, fun hcomplaint => absurd rfl hcomplaint⟩
  shortens := argument_shortens h.shortens before

theorem arguments_discharges (h : Discharges k inner expression) :
    Discharges k (arguments inner) [Goal.arguments] := by
  have hmore (before : Arguments) : Follows k (do return some (← argument inner before))
      [Goal.argument before.named, furtherArguments before.named] (afterStep furtherGoals) :=
    (argument_follows h before).bind fun a => .ret (afterStep furtherGoals) (some a)
  refine .ifAccept rfl rfl (fun _ => rfl) (fun _ => rfl) ?_ (.ret (fun _ => []) _)
  refine (argument_follows h ([], [])).bind fun first =>
    .extend furtherGoals (fun before => ?_) ?_ ?_ first
  · exact .ifAccept rfl rfl (fun _ => rfl) (fun _ => rfl) (hmore before)
      (.ret (afterStep furtherGoals) none)
  · exact fun before ts a rest hok =>
      ifAccept_progress (hmore before).shortens (none_progress a) hok
  · exact fun _ σ => scan_pass rfl next_nil

theorem filterCall_discharges (h : Discharges k inner expression) :
    Discharges k (filterCall inner) [Goal.name, Goal.arguments] := by
  refine .looking fun tokens => (name_discharges _).andThen fun filter => ?_
  refine (arguments_discharges h).bind fun a => .looking fun rest => ?_
  exact .ret (fun _ => []) _

theorem pipeline_discharges (h : Discharges k inner expression) :
    Discharges k (pipeline inner) (expression ++ [filters]) := by
  have hmore (calls : List FilterCall) : Follows k (do return some (calls ++ [← filterCall inner]))
      [Goal.name, Goal.arguments, filters] (afterStep fun _ => [filters]) :=
    (filterCall_discharges h).andThen fun call => .ret (afterStep fun _ => [filters]) _
  refine h.andThen fun base => .map (.extend (fun _ => [filters]) (fun calls => ?_) ?_ ?_ [])
  · exact .ifAccept rfl rfl (fun _ => rfl) (fun _ => rfl) (hmore calls)
      (.ret (afterStep fun _ => [filters]) none)
  · exact fun calls ts a rest hok => ifAccept_progress (hmore calls).shortens (none_progress a) hok
  · exact fun _ σ => scan_pass rfl next_nil

end Filters

section Statements

variable (h : Discharges k inner expression)
include h

theorem path_discharges_within : Discharges k (path inner) (ofLevel 6) :=
  (path_discharges h).mono (Nat.le_succ k)

theorem sum_discharges_within : Discharges k (sum inner) (ofLevel 4) :=
  (sum_discharges h).mono (Nat.le_succ k)

theorem assignment_discharges :
    Discharges k (assignment inner) (Goal.name :: Goal.assign :: expression ++ [filters]) := by
  refine Follows.cons (name_discharges _) fun target => ?_
  refine .cons (needSymbol_discharges _ rfl (by decide) (fun _ => rfl) fun _ => rfl) fun _ => ?_
  exact (pipeline_discharges h).map

/-- A word and a path behind a colon. -/
theorem bounded_follows (what : String) (next : Expr → LoopModifiers) :
    Follows k (do
        needSymbol what .colon
        return some (next (← path inner)))
      [Goal.colon, value, steps, comma, modifiers]
      (afterStep fun _ => [comma, modifiers]) := by
  refine .cons (needSymbol_discharges _ rfl (by decide) (fun _ => rfl) fun _ => rfl) fun _ => ?_
  exact (path_discharges_within h).andThen fun e =>
    .ret (afterStep fun _ => [comma, modifiers]) _

theorem modifier_accords (m : LoopModifiers) (hts : ts.length ≤ k + 1) (σ : List Goal) :
    Accords (fun found rest =>
        scan (afterStep (fun _ => [comma, modifiers]) found ++ σ) rest)
      (modifier? inner m ts) (scan (modifiers :: σ) ts) := by
  have htake {t : Token} {ts : List Token} {word : String} {bring : List Goal}
      (hword : t.kind.isWord word) (hbring : modifiers.take? (.ident word) = some bring) :
      scan (modifiers :: σ) (t :: ts) = scan (bring ++ σ) ts := by
    have hkind := isWord_eq_true.mp hword
    refine scan_take ?_ ?_ <;> rw [hkind]
    · exact hbring
    · rfl
  rw [modifier?, acceptWord]
  rcases accept_cases (TokenKind.isWord "reversed") ts with hreversed | ⟨t, ts, rfl, hword⟩
  · rw [accept_bind_false hreversed]
    simp only [Bool.false_eq_true, if_false, acceptWord]
    rcases accept_cases (TokenKind.isWord "limit") ts with hlimit | ⟨t, ts, rfl, hword⟩
    · rw [accept_bind_false hlimit]
      simp only [Bool.false_eq_true, if_false]
      rcases accept_cases (TokenKind.isWord "offset") ts with hoffset | ⟨t, ts, rfl, hword⟩
      · have hpass : Next (fun kind => modifiers.take? kind = none) ts := fun t ht => by
          simp only [Goal.take?, hreversed t ht, hlimit t ht, hoffset t ht]
          rfl
        rw [accept_bind_false hoffset, scan_pass rfl hpass]
        rfl
      · rw [accept_bind_true hword, htake hword rfl]
        exact (bounded_follows h _ _).accords ts σ (Nat.le_of_succ_le_succ hts)
    · rw [accept_bind_true hword, htake hword rfl]
      exact (bounded_follows h _ _).accords ts σ (Nat.le_of_succ_le_succ hts)
  · rw [accept_bind_true hword, htake hword rfl]
    rfl

theorem modifier_shortens (m : LoopModifiers) : Shortens (modifier? inner m) := by
  refine (Shortens.accept _).bind fun reversed => ?_
  split
  · exact .ret _
  refine (Shortens.accept _).bind fun limit => ?_
  split
  · exact (bounded_follows h _ fun e => { m with limit := some e }).shortens
  refine (Shortens.accept _).bind fun offset => ?_
  split
  · exact (bounded_follows h _ fun e => { m with offset := some e }).shortens
  · exact .ret _

theorem modifier_progress {m next : LoopModifiers}
    (hok : modifier? inner m ts = .ok (some next, rest)) : rest.length < ts.length := by
  refine ifAccept_progress (.ret _) (fun rest hok => ?_) hok
  refine ifAccept_progress ?_ (fun rest hok => ?_) hok
  · exact (bounded_follows h _ fun e => { m with limit := some e }).shortens
  · refine ifAccept_progress ?_ (none_progress next) hok
    exact (bounded_follows h _ fun e => { m with offset := some e }).shortens

omit h in
theorem comma_discharges : Discharges k (discard (acceptSymbol .comma)) [comma] := by
  change Discharges k (accept (TokenKind.isSymbol .comma) >>= fun _ => pure ()) _
  rw [accept_bind]
  refine .choose [] rfl rfl (fun _ => rfl) (fun kind => ?_)
    (fun _ => .ret (fun _ => []) ()) (.ret (fun _ => []) ())
  simp only [Goal.take?]
  split <;> rfl

theorem modifierStep_follows (m : LoopModifiers) :
    Follows k (modifierStep? inner m) [modifiers] (afterStep fun _ => [modifiers]) := by
  have hmodifier : Follows k (modifier? inner m) [modifiers]
      (afterStep fun _ => [comma, modifiers]) :=
    ⟨fun ts σ hts => modifier_accords h m (Nat.le_succ_of_le hts) σ, modifier_shortens h m⟩
  refine hmodifier.bind fun found => ?_
  cases found with
  | none => exact .ret (afterStep fun _ => [modifiers]) none
  | some next =>
    exact comma_discharges.andThen fun _ => .ret (afterStep fun _ => [modifiers]) (some next)

theorem modifierStep_progress (m : LoopModifiers) (ts : List Token) (next : LoopModifiers)
    (rest : List Token) (hok : modifierStep? inner m ts = .ok (some next, rest)) :
    rest.length < ts.length := by
  obtain ⟨found, mid, hmodifier, hcomma⟩ := bind_eq_ok.mp hok
  cases found with
  | none => cases hcomma
  | some m' =>
    have hshortens : Shortens (do discard (acceptSymbol .comma); return some m') :=
      (comma_discharges (k := 0)).shortens.bind fun _ => .ret _
    exact (hshortens mid _ _ hcomma).trans_lt (modifier_progress h hmodifier)

theorem loop_discharges : Discharges k (loop inner)
    [Goal.name, inWord, value, steps, modifiers] := by
  have hin : Discharges k (need "'in'" fun kind => if kind.isWord "in" then some () else none)
      [inWord] := by
    refine .need rfl rfl (fun _ => rfl) fun kind => ?_
    simp only [Goal.take?]
    split <;> rfl
  have hmodifiers : Discharges k (extend (modifierStep? inner) {}) [modifiers] :=
    .extend (fun _ => [modifiers]) (modifierStep_follows h) (modifierStep_progress h)
      (fun _ σ => scan_pass rfl next_nil) {}
  refine Follows.cons (name_discharges _) fun item => ?_
  refine hin.andThen fun _ => ?_
  exact (path_discharges_within h).andThen fun source => hmodifiers.map

omit h in
theorem separated_discharges {item : Parser Expr} {gs : List Goal} {isSeparator : TokenKind → Bool}
    {g : Goal} (hitem : Discharges k item gs) (hg : g.isOptional)
    (hdot : isSeparator (.symbol .dot) = false) (hbeneath : ∀ σ, g.beneath σ = σ)
    (htake : ∀ kind, g.take? kind = if isSeparator kind then some (gs ++ [g]) else none)
    (first : Expr) : Discharges k (separated item isSeparator first) [g] := by
  have hmore (items : List Expr) : Follows k (do return some (items ++ [← item])) (gs ++ [g])
      (afterStep fun _ => [g]) := hitem.andThen fun e => .ret (afterStep fun _ => [g]) _
  refine .extend (fun _ => [g]) (fun items => ?_) ?_ ?_ [first]
  · refine .ifAccept hg hdot hbeneath htake ?_ (.ret (afterStep fun _ => [g]) none)
    rw [List.append_nil]
    exact hmore items
  · exact fun items ts a rest hok => ifAccept_progress (hmore items).shortens (none_progress a) hok
  · exact fun _ σ => scan_pass hg next_nil

theorem when_discharges : Discharges k (when inner) (ofLevel 4 ++ [alternatives]) :=
  (sum_discharges_within h).andThen fun first =>
    (separated_discharges (sum_discharges_within h) rfl rfl (fun _ => rfl) (fun _ => rfl) first).map

theorem items_discharges (first : Expr) :
    Discharges k (separated inner (TokenKind.isSymbol .comma) first) [items] :=
  separated_discharges h rfl rfl (fun _ => rfl) (fun _ => rfl) first

theorem cycle_discharges : Discharges k (cycle inner) (expression ++ [group]) := by
  have hgroup (first : Expr) : Discharges k (do
      return Statement.cycle (some first)
        (← separated inner (TokenKind.isSymbol .comma) (← inner))) (expression ++ [items]) :=
    h.andThen fun e => (items_discharges h e).map
  have hplain (first : Expr) : Discharges k (do
      return Statement.cycle none (← separated inner (TokenKind.isSymbol .comma) first)) [items] :=
    (items_discharges h first).map
  refine h.andThen fun first => ?_
  refine .accepting (expression ++ [items]) rfl (fun _ => rfl) (fun kind hkind => ?_)
    (Nat.le_succ k) (hgroup first) (hplain first).shortens fun ts σ hcolon hts => ?_
  · simp only [Goal.take?, hkind]
    rfl
  · have hscan : scan (group :: σ) ts = scan (items :: σ) ts := by
      cases ts with
      | nil => rfl
      | cons t ts =>
        refine scan_congr ?_
        simp only [step, Goal.take?, hcolon t rfl, Bool.false_or]
        rfl
    exact hscan ▸ (hplain first).accords ts σ hts

theorem subject_discharges : Discharges k (subject? inner) [subject] := by
  refine .ifAccept rfl rfl (fun _ => rfl) (fun _ => rfl) ?_ (.ret (fun _ => []) none)
  refine (path_discharges_within h).andThen fun e => ?_
  exact .ifAccept rfl rfl (fun _ => rfl) (fun _ => rfl) (name_discharges _).map
    (.ret (fun _ => []) _)

/-- A parameter, where something is left to be read. -/
theorem parameter_accords {g : Goal} (hg : g.isOptional = false) (hbeneath : ∀ σ, g.beneath σ = σ)
    (htake : g.take? t.kind = ofParameter? t.kind) (bindings : List (String × Expr))
    (hts : (t :: ts).length ≤ k) (σ : List Goal) :
    Accords (fun found rest => scan (afterStep (fun _ => [parameters]) found ++ σ) rest)
      ((do
        let label ← name "parameter name"
        needSymbol "':' after parameter name" .colon
        return some (bindings ++ [(label, ← inner)])) (t :: ts)) (scan (g :: σ) (t :: ts)) := by
  have hvalue (label : String) : Follows k (do
      needSymbol "':' after parameter name" .colon
      return some (bindings ++ [(label, ← inner)]))
      (Goal.colon :: expression ++ [parameters]) (afterStep fun _ => [parameters]) := by
    refine .cons (needSymbol_discharges _ rfl (by decide) (fun _ => rfl) fun _ => rfl) fun _ => ?_
    exact h.andThen fun e => .ret (afterStep fun _ => [parameters]) _
  obtain ⟨kind, span⟩ := t
  cases kind with
  | ident label =>
    have hname : name "parameter name" (⟨.ident label, span⟩ :: ts) = .ok (label, ts) := rfl
    rw [bind_of_ok hname, @scan_take _ _ _ ⟨.ident label, span⟩ _ htake rfl, hbeneath]
    exact (hvalue label).accords ts σ (Nat.le_of_succ_le hts)
  | _ =>
    rw [scan, step_reject hg htake]
    exact ⟨_, rfl, fun _ => rfl⟩

theorem parameter_follows (bindings : List (String × Expr)) :
    Follows k (parameter? inner bindings) [parameters] (afterStep fun _ => [parameters]) where
  accords ts σ hts := by
    rcases accept_cases (TokenKind.isSymbol .comma) ts with hcomma | ⟨t, ts, rfl, hcomma⟩
    · have hnone : parameter? inner bindings ts = _ :=
        bind_of_ok (discard_reads accept_false [] ts rfl hcomma) _
      rw [hnone, get_bind]
      cases ts with
      | nil => rfl
      | cons t ts =>
        refine parameter_accords h rfl (fun _ => rfl) ?_ bindings hts σ
        simp only [Goal.take?, hcomma t rfl]
        rfl
    · have htaken : parameter? inner bindings (t :: ts) = _ :=
        bind_of_ok (discard_reads (accept_true (P := fun _ => True) hcomma) [t] ts rfl
          fun _ _ => trivial) _
      have htake : parameters.take? t.kind = some [parameter] := if_pos hcomma
      have hdot : t.kind.isSymbol .dot = false := by
        rw [isSymbol_eq_true.mp hcomma]
        rfl
      rw [htaken, get_bind, List.cons_append, scan_take htake hdot]
      cases ts with
      | nil => rfl
      | cons t ts => exact parameter_accords h rfl (fun _ => rfl) rfl bindings (by simp at hts ⊢; omega) σ
  shortens := by
    refine (comma_discharges (k := 0)).shortens.bind fun _ => Shortens.get.bind fun tokens => ?_
    split
    · exact .ret _
    · exact (Shortens.need _ _).bind fun label => (Shortens.need _ _).bind fun _ =>
        h.shortens.bind fun e => .ret _

theorem parameter_progress (bindings : List (String × Expr)) (ts : List Token)
    (next : List (String × Expr)) (rest : List Token)
    (hok : parameter? inner bindings ts = .ok (some next, rest)) : rest.length < ts.length := by
  obtain ⟨_, mid, hcomma, hok⟩ := bind_eq_ok.mp hok
  have hmid := (comma_discharges (k := 0)).shortens _ _ _ hcomma
  rw [get_bind] at hok
  split at hok
  · cases hok
  · obtain ⟨label, later, hname, hvalue⟩ := bind_eq_ok.mp hok
    have hrest : Shortens (do
        needSymbol "':' after parameter name" .colon
        return some (bindings ++ [(label, ← inner)])) :=
      (Shortens.need _ _).bind fun _ => h.shortens.bind fun e => .ret _
    exact ((hrest _ _ _ hvalue).trans_lt (need_progress hname)).trans_le hmid

theorem inclusion_discharges :
    Discharges k (inclusion inner) [value, steps, subject, parameters] := by
  refine (path_discharges_within h).andThen fun template => ?_
  refine Follows.cons (subject_discharges h) fun subject => .map ?_
  exact .extend (fun _ => [parameters]) (parameter_follows h) (parameter_progress h)
    (fun _ σ => rfl) []

end Statements

/-- What a production asks for. -/
def goals : Production → List Goal
  | .expression => expression ++ [filters]
  | .assignment => Goal.name :: Goal.assign :: expression ++ [filters]
  | .loop => [Goal.name, inWord, value, steps, modifiers]
  | .cycle => expression ++ [group]
  | .when => ofLevel 4 ++ [alternatives]
  | .include => [value, steps, subject, parameters]

theorem statement_discharges (h : Discharges k inner expression) (production : Production) :
    Discharges k (statement inner production) (goals production) := by
  cases production with
  | expression => exact (pipeline_discharges h).map
  | assignment => exact assignment_discharges h
  | loop => exact loop_discharges h
  | cycle => exact cycle_discharges h
  | when => exact when_discharges h
  | «include» => exact inclusion_discharges h

end Grammar

/-- Everything up to the end is read as the goals ask for. -/
theorem whole_accords {p : Parser α} {gs : List Goal} (h : Discharges k p gs)
    (hts : ts.length ≤ k) :
    Accords (fun _ _ => .ok ()) (whole p ts) (scan gs ts) := by
  have haccords := h.accords ts [] hts
  rw [show gs ++ [] = gs from List.append_nil gs] at haccords
  cases hok : p ts with
  | error s =>
    rw [hok] at haccords
    rw [whole, bind_of_error hok]
    exact haccords
  | ok found =>
    obtain ⟨a, rest⟩ := found
    rw [hok] at haccords
    have hscan : scan gs ts = scan [] rest := haccords
    rw [whole, bind_of_ok hok, get_bind, hscan]
    cases rest with
    | nil => rfl
    | cons t rest => exact ⟨t :: rest, rfl, fun _ => rfl⟩

end Stencil.Parser
