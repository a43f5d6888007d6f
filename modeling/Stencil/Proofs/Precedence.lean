import Mathlib
import Stencil.Proofs.Printing
import Stencil.Proofs.Reading

/-!
# Precedence

An expression that was printed with the parentheses that the table of precedence asks for is read as
it was. A reader at some level takes what binds at least as tightly, and stops at any token with
which an expression of a looser level would go on.
-/
namespace Stencil.Parser

open TokenKind (wrap)

/-- The level at which an expression goes on with a token. -/
def continuation? : TokenKind → Option Nat
  | .symbol .dot | .symbol .leftBracket => some 6
  | .symbol .star | .symbol .slash | .symbol .percent => some 5
  | .symbol .plus | .symbol .minus => some 4
  | .symbol .eq | .symbol .ne | .symbol .lt | .symbol .le | .symbol .gt | .symbol .ge => some 3
  | .ident name =>
    if name = "contains" then some 3
    else if name = "and" then some 1
    else if name = "or" then some 0
    else none
  | _ => none

/-- No expression of the level goes on with the token. -/
def Stops (level : Nat) (kind : TokenKind) : Prop := ∀ l ∈ continuation? kind, l < level

theorem Stops.mono {level level' : Nat} (h : level ≤ level') {kind : TokenKind}
    (hstops : Stops level kind) : Stops level' kind :=
  fun l hl => Nat.lt_of_lt_of_le (hstops l hl) h

theorem stops_of_tightest (kind : TokenKind) : Stops 7 kind := by
  intro l hl
  cases kind with
  | ident name =>
    simp only [continuation?] at hl
    split_ifs at hl <;> cases hl <;> decide
  | symbol s => cases s <;> cases hl <;> decide
  | _ => cases hl

theorem stops_of_none {level : Nat} {kind : TokenKind} (h : continuation? kind = none) :
    Stops level kind := by
  intro l hl
  rw [h] at hl
  cases hl

theorem continuation?_kind (op : Operator) : continuation? op.kind = some op.level := by
  cases op <;> rfl

theorem stops_kind (op : Operator) : Stops (op.level + 1) op.kind := by
  intro l hl
  rw [continuation?_kind op] at hl
  cases hl
  exact Nat.lt_succ_self _

/-- The operators of a level. -/
def operatorAt : Nat → TokenKind → Option Operator
  | 0 => fun kind => if kind.isWord "or" then some .or else none
  | 1 => fun kind => if kind.isWord "and" then some .and else none
  | 3 => comparisonOperator?
  | 4 => sumOperator?
  | 5 => productOperator?
  | _ => fun _ => none

theorem operatorAt_kind (op : Operator) : operatorAt op.level op.kind = some op := by
  cases op <;> rfl

theorem isSymbol_eq_true {kind : TokenKind} {s : Symbol} :
    kind.isSymbol s = true ↔ kind = .symbol s := by
  cases kind <;> simp [TokenKind.isSymbol, eq_comm]

theorem isSymbol_eq_false {kind : TokenKind} {s : Symbol} (h : kind ≠ .symbol s) :
    kind.isSymbol s = false :=
  Bool.eq_false_iff.mpr fun hkind => h (isSymbol_eq_true.mp hkind)

theorem isWord_eq_true {kind : TokenKind} {word : String} :
    kind.isWord word = true ↔ kind = .ident word := by
  cases kind <;> simp [TokenKind.isWord, eq_comm]

theorem continuation?_of_operatorAt {level : Nat} {kind : TokenKind} {op : Operator}
    (h : operatorAt level kind = some op) : continuation? kind = some level := by
  unfold operatorAt at h
  split at h
  case h_1 =>
    beta_reduce at h
    by_cases hword : kind.isWord "or"
    · rw [isWord_eq_true.mp hword]
      rfl
    · rw [if_neg hword] at h
      cases h
  case h_2 =>
    beta_reduce at h
    by_cases hword : kind.isWord "and"
    · rw [isWord_eq_true.mp hword]
      rfl
    · rw [if_neg hword] at h
      cases h
  case h_3 =>
    unfold comparisonOperator? at h
    split at h <;> first | rfl | cases h
  case h_4 =>
    unfold sumOperator? at h
    split at h <;> first | rfl | cases h
  case h_5 =>
    unfold productOperator? at h
    split at h <;> first | rfl | cases h
  case h_6 => cases h

theorem operatorAt_of_stops {level : Nat} {kind : TokenKind} (h : Stops level kind) :
    operatorAt level kind = none := by
  cases hop : operatorAt level kind with
  | none => rfl
  | some op => exact absurd (h level (continuation?_of_operatorAt hop)) (Nat.lt_irrefl level)

theorem isSymbol_eq_false_of_stops {s : Symbol} {kind : TokenKind} (h : Stops 6 kind)
    (hs : continuation? (.symbol s) = some 6) : kind.isSymbol s = false := by
  refine isSymbol_eq_false fun hkind => ?_
  rw [hkind] at h
  exact absurd (h 6 hs) (Nat.lt_irrefl 6)

variable (inner : Parser Expr)

/-- The parser of a level. -/
def parserAt : Nat → Parser Expr
  | 0 => disjunction inner
  | 1 => conjunction inner
  | 2 => negation inner
  | 3 => comparison inner
  | 4 => sum inner
  | 5 => product inner
  | _ => path inner

def chainStep? (operand : Parser Expr) (operator? : TokenKind → Option Operator) (left : Expr) :
    Parser (Option Expr) := do
  match ← take? operator? with
  | some op => return some (.binary op left (← operand))
  | none => return none

/-- How a parser of a level goes on after an operand. -/
def stepAt : Nat → Expr → Parser (Option Expr)
  | 6 => pathStep? inner
  | level => chainStep? (parserAt inner (level + 1)) (operatorAt level)

/-- The levels at which operands are grouped to the left. -/
def Groups (level : Nat) : Prop := level = 0 ∨ level = 1 ∨ level = 4 ∨ level = 5

instance (level : Nat) : Decidable (Groups level) :=
  inferInstanceAs (Decidable (level = 0 ∨ level = 1 ∨ level = 4 ∨ level = 5))

def ReadsAt (level : Nat) (kinds : List TokenKind) (e : Expr) : Prop :=
  Reads (parserAt inner level) kinds e (Stops level)

def ContinuesAt (level : Nat) (kinds : List TokenKind) (e : Expr) : Prop :=
  Continues (parserAt inner level) (stepAt inner level) kinds e (Stops (level + 1))

variable {inner : Parser Expr} {level : Nat} {kind : TokenKind} {kinds later : List TokenKind}
  {e left right : Expr} {op : Operator} {P : TokenKind → Prop}

section Primary

theorem primary_atom (h : atom? kind = some e) : Reads (primary inner) [kind] e P := by
  have hparen : kind.isSymbol .leftParen = false := by
    refine isSymbol_eq_false fun hkind => ?_
    rw [hkind] at h
    cases h
  have hread : Reads (need "a value" atom?) [kind] e P := need_some h
  exact Reads.declining hparen hread

theorem primary_parens (h : Reads inner kinds e (Stops 0)) :
    Reads (primary inner) (.symbol .leftParen :: kinds ++ [.symbol .rightParen]) e P := by
  have hclose : Reads (do needSymbol "')'" .rightParen; pure e) [.symbol .rightParen] e P :=
    (needSymbol_reads _ _).map
  exact Reads.accepting rfl (h.bind (stops_of_none rfl) (Reads.declining rfl hclose))

theorem primary_range {first last : Expr} (hfirst : Reads inner kinds first (Stops 0))
    (hlast : Reads inner later last (Stops 0)) :
    Reads (primary inner)
      (.symbol .leftParen :: kinds ++ .symbol .dotDot :: later ++ [.symbol .rightParen])
      (.range first last) P := by
  have hclose : Reads (do needSymbol "')'" .rightParen; pure (Expr.range first last))
      [.symbol .rightParen] (.range first last) P := (needSymbol_reads _ _).map
  have hupper : Reads
      (do let last ← inner; needSymbol "')'" .rightParen; pure (Expr.range first last))
      (later ++ [.symbol .rightParen]) (.range first last) P :=
    hlast.bind (stops_of_none rfl) hclose
  rw [List.append_assoc]
  exact Reads.accepting rfl (hfirst.bind (stops_of_none rfl) (Reads.accepting rfl hupper))

end Primary

section Path

variable {base key : Expr}

def indexStep? (inner : Parser Expr) (base : Expr) : Parser (Option Expr) := do
  if ← acceptSymbol .leftBracket then
    let key ← inner
    needSymbol "']'" .rightBracket
    return some (.index base key)
  else return none

theorem pathStep?_property (key : String) :
    Reads (pathStep? inner base) [.symbol .dot, .ident key] (some (.property base key)) P := by
  intro ts rest hts _
  obtain ⟨⟨_, dot⟩, ts, rfl, rfl, hkey⟩ := List.map_eq_cons_iff.mp hts
  obtain ⟨⟨_, span⟩, ts, rfl, rfl, hnil⟩ := List.map_eq_cons_iff.mp hkey
  rw [List.map_eq_nil_iff.mp hnil]
  rfl

theorem pathStep?_of_not_dot (ts : List Token)
    (h : Next (fun kind => kind.isSymbol .dot = false) ts) :
    pathStep? inner base ts = indexStep? inner base ts := by
  have hdot : ts.head?.any (·.kind.isSymbol .dot) = false := by
    cases ts with
    | nil => rfl
    | cons t ts => exact h t rfl
  have hget : (get : Parser (List Token)) ts = .ok (ts, ts) := rfl
  rw [pathStep?, bind_of_ok hget, hdot]
  rfl

theorem pathStep?_index (h : Reads inner kinds key (Stops 0)) :
    Reads (pathStep? inner base) (.symbol .leftBracket :: (kinds ++ [.symbol .rightBracket]))
      (some (.index base key)) P := by
  have hclose : Reads (do needSymbol "']'" .rightBracket; pure (some (Expr.index base key)))
      [.symbol .rightBracket] (some (.index base key)) P := (needSymbol_reads _ _).map
  have hread : Reads (indexStep? inner base)
      (.symbol .leftBracket :: (kinds ++ [.symbol .rightBracket])) (some (.index base key)) P :=
    Reads.accepting rfl (h.bind (stops_of_none rfl) hclose)
  exact hread.of_eq pathStep?_of_not_dot rfl

theorem pathStep?_stops : Reads (pathStep? inner base) [] none (Stops 6) := by
  have hbracket : Leads (fun kind => kind.isSymbol .leftBracket = false) [] (Stops 6) :=
    fun kind h => isSymbol_eq_false_of_stops h rfl
  have hread : Reads (indexStep? inner base) [] none (Stops 6) :=
    Reads.declining hbracket (Reads.ret none _)
  exact hread.of_eq pathStep?_of_not_dot fun kind h => isSymbol_eq_false_of_stops h rfl

end Path

theorem chainStep?_reads {operand : Parser Expr} {operator? : TokenKind → Option Operator}
    {kind : TokenKind} (hop : operator? kind = some op) (hright : Reads operand kinds right P) :
    Reads (chainStep? operand operator? left) (kind :: kinds) (some (.binary op left right)) P :=
  Reads.bind (take?_some hop) leads_true hright.map

theorem chainStep?_stops {operand : Parser Expr} {operator? : TokenKind → Option Operator} :
    Reads (chainStep? operand operator? left) [] none fun kind => operator? kind = none :=
  Reads.bind take?_none (fun _ h => h) (Reads.ret none _)

section Negation

/-- One more mark of negation. -/
def notStep? (n : Nat) : Parser (Option Nat) := do
  return if ← acceptWord "not" then some (n + 1) else none

/-- A comparison after `n` marks of negation that were taken, and any number of further ones. -/
def negationAfter (inner : Parser Expr) (n : Nat) : Parser Expr := do
  let marks ← extend notStep? n
  return Nat.repeat Expr.not marks (← comparison inner)

/-- Marks of negation apply to what is read, the last one first. -/
def Negates (inner : Parser Expr) (kinds : List TokenKind) (e : Expr) : Prop :=
  ∀ n, Reads (negationAfter inner n) kinds (Nat.repeat Expr.not n e) (Stops 2)

theorem notStep?_stops (n : Nat) :
    Reads (notStep? n) [] none fun kind => kind.isWord "not" = false :=
  accept_false.map

theorem Negates.of_comparison (h : ReadsAt inner 3 kinds e)
    (hnot : Leads (fun kind => kind.isWord "not" = false) kinds (Stops 2)) :
    Negates inner kinds e := by
  intro n
  have hmarks : Reads (extend notStep? n) [] n fun kind => kind.isWord "not" = false :=
    (Repeats.done (notStep?_stops n)).reads
  have hoperand : Reads (do return Nat.repeat Expr.not n (← comparison inner)) kinds
      (Nat.repeat Expr.not n e) (Stops 2) :=
    Reads.weaken (Reads.map h) fun kind hkind => hkind.mono (by decide)
  exact hmarks.bind hnot hoperand

theorem repeat_not (n : Nat) (e : Expr) :
    Nat.repeat Expr.not n (.not e) = Nat.repeat Expr.not (n + 1) e := by
  induction n with
  | zero => rfl
  | succ n ih => exact congrArg Expr.not ih

theorem Negates.not (h : Negates inner kinds e) :
    Negates inner (.ident "not" :: kinds) (.not e) := by
  intro n ts rest hts hrest
  obtain ⟨t, ts, rfl, ht, hkinds⟩ := List.map_eq_cons_iff.mp hts
  have htaken : Reads (notStep? n) [.ident "not"] (some (n + 1)) fun _ => True :=
    (accept_true rfl).map
  have hmark : notStep? n (t :: ts ++ rest) = .ok (some (n + 1), ts ++ rest) :=
    htaken [t] (ts ++ rest) (congrArg (· :: []) ht) fun _ _ => trivial
  -- a mark is one token, and the tokens behind it are read with one more mark taken
  rw [repeat_not, ← h (n + 1) ts rest hkinds hrest]
  exact bind_of_eq (extend_cons hmark) _

theorem Negates.readsAt (h : Negates inner kinds e) : ReadsAt inner 2 kinds e := h 0

end Negation

section Levels

theorem parserAt_groups (h : Groups level) :
    parserAt inner level = parserAt inner (level + 1) >>= extend (stepAt inner level) := by
  rcases h with rfl | rfl | rfl | rfl <;> rfl

theorem stepAt_groups (h : Groups level) :
    stepAt inner level = chainStep? (parserAt inner (level + 1)) (operatorAt level) := by
  rcases h with rfl | rfl | rfl | rfl <;> rfl

/-- What binds more tightly is the first operand. -/
theorem ContinuesAt.first (hlevel : Groups level) (h : ReadsAt inner (level + 1) kinds e) :
    ContinuesAt inner level kinds e := by
  rw [ContinuesAt, parserAt_groups hlevel]
  exact Continues.first h

theorem ContinuesAt.primary (h : Reads (primary inner) kinds e (Stops 7)) :
    ContinuesAt inner 6 kinds e :=
  Continues.first h

theorem ContinuesAt.binary (hlevel : Groups op.level)
    (hleft : ContinuesAt inner op.level kinds left)
    (hright : ReadsAt inner (op.level + 1) later right) :
    ContinuesAt inner op.level (kinds ++ op.kind :: later) (.binary op left right) := by
  refine Continues.next hleft (stops_kind op) ?_
  rw [stepAt_groups hlevel]
  exact chainStep?_reads (operatorAt_kind op) hright

theorem ContinuesAt.property (h : ContinuesAt inner 6 kinds e) (key : String) :
    ContinuesAt inner 6 (kinds ++ [.symbol .dot, .ident key]) (.property e key) :=
  Continues.next h (stops_of_tightest _) (pathStep?_property key)

theorem ContinuesAt.index {key : Expr} (h : ContinuesAt inner 6 kinds e)
    (hkey : Reads inner later key (Stops 0)) :
    ContinuesAt inner 6 (kinds ++ .symbol .leftBracket :: (later ++ [.symbol .rightBracket]))
      (.index e key) :=
  Continues.next h (stops_of_tightest _) (pathStep?_index hkey)

theorem ContinuesAt.readsAt (hlevel : Groups level) (h : ContinuesAt inner level kinds e) :
    ReadsAt inner level kinds e := by
  refine Continues.reads h ?_ fun _ hkind => Stops.mono (Nat.le_succ level) hkind
  rw [stepAt_groups hlevel]
  exact chainStep?_stops.weaken fun _ hkind => operatorAt_of_stops hkind

theorem ContinuesAt.readsAt_path (h : ContinuesAt inner 6 kinds e) : ReadsAt inner 6 kinds e :=
  Continues.reads h pathStep?_stops fun _ hkind => Stops.mono (Nat.le_succ 6) hkind

/-- A comparison of two sums. -/
theorem readsAt_comparison (hlevel : op.level = 3) (hleft : ReadsAt inner 4 kinds left)
    (hright : ReadsAt inner 4 later right) :
    ReadsAt inner 3 (kinds ++ op.kind :: later) (.binary op left right) := by
  have hstops : Stops (op.level + 1) op.kind := stops_kind op
  have hop : operatorAt op.level op.kind = some op := operatorAt_kind op
  rw [hlevel] at hstops hop
  refine Reads.bind hleft hstops ?_
  refine Reads.bind (take?_some hop) leads_true ?_
  exact Reads.weaken hright.map fun _ hkind => Stops.mono (by decide) hkind

theorem readsAt_comparison_of_sum (h : ReadsAt inner 4 kinds e) : ReadsAt inner 3 kinds e := by
  have hnone : Reads (take? comparisonOperator?) [] none (Stops 3) :=
    take?_none.weaken fun _ hkind => operatorAt_of_stops hkind
  have hrest : Reads (take? comparisonOperator? >>= fun
      | some op => do return .binary op e (← sum inner)
      | none => return e) ([] ++ []) e (Stops 3) :=
    hnone.bind (fun _ h => h) (Reads.ret e _)
  have hread : Reads (comparison inner) (kinds ++ []) e (Stops 3) :=
    Reads.bind h (fun _ hkind => Stops.mono (by decide) hkind) hrest
  rwa [List.append_nil] at hread

/-- An expression of a level may begin with the kinds, which are read as `e`. -/
def BeginsAt (inner : Parser Expr) : Nat → List TokenKind → Expr → Prop
  | 2 => Negates inner
  | 3 => ReadsAt inner 3
  | level => ContinuesAt inner level

theorem beginsAt_groups (h : Groups level) : BeginsAt inner level = ContinuesAt inner level := by
  rcases h with rfl | rfl | rfl | rfl <;> rfl

theorem BeginsAt.readsAt (hlevel : level ≤ 6) (h : BeginsAt inner level kinds e) :
    ReadsAt inner level kinds e := by
  obtain hgroups | rfl | rfl | rfl : Groups level ∨ level = 2 ∨ level = 3 ∨ level = 6 := by
    unfold Groups
    omega
  · rw [beginsAt_groups hgroups] at h
    exact ContinuesAt.readsAt hgroups h
  · exact Negates.readsAt h
  · exact h
  · exact ContinuesAt.readsAt_path h

theorem BeginsAt.of_succ (hlevel : level < 6) (h : BeginsAt inner (level + 1) kinds e)
    (hnot : level = 2 → Leads (fun kind => kind.isWord "not" = false) kinds (Stops 2)) :
    BeginsAt inner level kinds e := by
  have hreads := h.readsAt hlevel
  obtain hgroups | rfl | rfl : Groups level ∨ level = 2 ∨ level = 3 := by
    unfold Groups
    omega
  · rw [beginsAt_groups hgroups]
    exact ContinuesAt.first hgroups hreads
  · exact Negates.of_comparison hreads (hnot rfl)
  · exact readsAt_comparison_of_sum hreads

/-- What binds more tightly may stand where less is asked for. -/
theorem BeginsAt.of_le {tight : Nat} (hle : level ≤ tight) (htight : tight ≤ 6)
    (h : BeginsAt inner tight kinds e)
    (hnot : 2 < tight → Leads (fun kind => kind.isWord "not" = false) kinds (Stops 2)) :
    BeginsAt inner level kinds e := by
  induction hle with
  | refl => exact h
  | @step tight hle ih =>
    have hbegins : BeginsAt inner tight kinds e := h.of_succ htight fun htwo => hnot (by omega)
    exact ih (by omega) hbegins fun hlt => hnot (by omega)

/-- An operator between a left operand, which may be grouped with it, and a tighter right one. -/
theorem beginsAt_binary (hleft : BeginsAt inner op.leftLevel kinds left)
    (hright : ReadsAt inner (op.level + 1) later right) :
    BeginsAt inner op.level (kinds ++ op.kind :: later) (.binary op left right) := by
  obtain hgroups | hcompares : Groups op.level ∨ op.level = 3 := by cases op <;> decide
  · have hlevel : op.leftLevel = op.level := if_neg fun h => absurd hgroups (by rw [h]; decide)
    rw [hlevel, beginsAt_groups hgroups] at hleft
    rw [beginsAt_groups hgroups]
    exact ContinuesAt.binary hgroups hleft hright
  · have hlevel : op.leftLevel = 4 := if_pos hcompares
    have hsum : ReadsAt inner 4 kinds left := by
      rw [hlevel] at hleft
      exact hleft.readsAt (by decide)
    rw [hcompares] at hright ⊢
    exact readsAt_comparison hcompares hsum hright

end Levels

end Stencil.Parser
