import Mathlib
import Stencil.Proofs.Calls
import Stencil.Proofs.Lexing
import Stencil.Proofs.Modifiers

/-!
# Printing and reading again

What was printed is read as it was: pipelines, and the statements of every form. A text has at least
as many tokens as brackets, so that its own tokens bound the depth of what it can be read as.
-/
namespace Stencil.Parser

open TokenKind (commas)

variable {α : Type} {inner : Parser Expr} {kinds later : List TokenKind} {e : Expr} {n : Nat}
  {P Q : TokenKind → Prop}

theorem readsAt_nested {required : Nat} (h : e.Printable) (hrequired : required ≤ 6)
    (hn : (e.operandKinds required).length ≤ n) :
    ReadsAt (nested n) required (e.operandKinds required) e := by
  have hbegins : BeginsAt (nested n) required (e.operandKinds required) e :=
    (Expr.readable h).operand (Expr.starts_kinds h) hrequired (Nat.le_succ_of_le hn)
  exact hbegins.readsAt hrequired

section Separated

variable {item : Parser Expr} {print : Expr → List TokenKind} {isSeparator : TokenKind → Bool}
  {items : List Expr}

def separatedStep? (item : Parser Expr) (isSeparator : TokenKind → Bool) (items : List Expr) :
    Parser (Option (List Expr)) := do
  if ← accept isSeparator then return some (items ++ [← item]) else return none

theorem separated_reads (first : Expr) (hitems : ∀ e ∈ items, Reads item (print e) e Q)
    (hcomma : Q (.symbol .comma)) (hseparator : isSeparator (.symbol .comma)) :
    Reads (separated item isSeparator first)
      (items.flatMap fun e => .symbol .comma :: print e) (first :: items) AtEnd := by
  have hdone : Repeats (separatedStep? item isSeparator) AtEnd (first :: ([] ++ items)) []
      (first :: items) := .done (reads_atEnd rfl)
  have hrepeats : Repeats (separatedStep? item isSeparator) AtEnd [first]
      (items.flatMap (fun e => .symbol .comma :: print e) ++ []) (first :: items) :=
    Repeats.items (first :: ·)
      (fun taken e he => Reads.accepting hseparator (hitems e he).map) hcomma
      (fun _ h => h.elim) hdone
  rw [List.append_nil] at hrepeats
  exact hrepeats.reads

end Separated

section Forms

theorem cycle_reads {group : Option Expr} {first : Expr} {values : List Expr}
    (hgroup : ∀ e ∈ group, Reads inner e.kinds e (Stops 0))
    (hvalues : ∀ e ∈ first :: values, Reads inner e.kinds e (Stops 0)) :
    Reads (cycle inner) (Statement.cycle group (first :: values)).kinds
      (.cycle group (first :: values)) AtEnd := by
  obtain ⟨hfirst, hvalues⟩ := List.forall_mem_cons.mp hvalues
  have hrest : Reads (separated inner (TokenKind.isSymbol .comma) first)
      (values.flatMap fun e => .symbol .comma :: e.kinds) (first :: values) AtEnd :=
    separated_reads first hvalues (stops_of_none rfl) rfl
  have hstops : Leads (Stops 0) (values.flatMap fun e => .symbol .comma :: e.kinds) AtEnd :=
    leads_items_atEnd (stops_of_none rfl)
  have hkinds : commas ((first :: values).map Expr.kinds)
    = first.kinds ++ values.flatMap fun e => .symbol .comma :: e.kinds := commas_map _ _ _
  cases group with
  | none =>
    rw [Statement.kinds, hkinds]
    refine hfirst.bind hstops ?_
    exact Reads.declining (leads_items_atEnd rfl) hrest.map
  | some e =>
    rw [Statement.kinds, hkinds, Option.elim_some, List.append_assoc]
    refine (hgroup e rfl).bind (stops_of_none rfl) ?_
    exact Reads.accepting rfl (hfirst.bind hstops hrest.map)

theorem when_reads {first : Expr} {values : List Expr}
    (hvalues : ∀ e ∈ first :: values, ReadsAt inner 4 (e.operandKinds 4) e) :
    Reads (when inner) (Statement.when (first :: values)).kinds (.when (first :: values))
      AtEnd := by
  obtain ⟨hfirst, hvalues⟩ := List.forall_mem_cons.mp hvalues
  have hkinds : commas ((first :: values).map (Expr.operandKinds 4))
    = first.operandKinds 4 ++ values.flatMap fun e => .symbol .comma :: e.operandKinds 4 :=
      commas_map _ _ _
  rw [Statement.kinds, hkinds]
  refine Reads.bind hfirst (leads_items_atEnd (stops_of_none rfl)) ?_
  exact (separated_reads first hvalues (stops_of_none rfl) rfl).map

variable {subject : Option (Expr × Option String)} {bindings : List (String × Expr)}

theorem subject?_reads (h : ∀ entry ∈ subject, ReadsAt inner 6 (entry.1.operandKinds 6) entry.1) :
    Reads (subject? inner) (subjectKinds subject) subject fun kind =>
      Stops 6 kind ∧ kind.isWord "with" = false ∧ kind.isWord "as" = false := by
  cases subject with
  | none =>
    have hword : Leads (fun kind => kind.isWord "with" = false) [] fun kind =>
        Stops 6 kind ∧ kind.isWord "with" = false ∧ kind.isWord "as" = false := fun _ h => h.2.1
    exact Reads.declining hword (Reads.ret _ _)
  | some entry =>
    obtain ⟨value, given⟩ := entry
    have hvalue : ReadsAt inner 6 (value.operandKinds 6) value := h _ rfl
    refine Reads.accepting rfl ?_
    cases given with
    | none =>
      refine Reads.bind hvalue (fun _ h => h.1) ?_
      exact Reads.declining (fun _ h => h.2.2) (Reads.ret _ _)
    | some name =>
      refine Reads.bind hvalue (stops_of_none rfl) ?_
      exact Reads.accepting rfl (name_reads _ _).map

theorem parameter?_reads (taken : List (String × Expr)) {entry : String × Expr}
    (h : Reads inner entry.2.kinds entry.2 (Stops 0)) :
    Reads (parameter? inner taken) (.symbol .comma :: parameterKinds entry)
      (some (taken ++ [entry])) (Stops 0) := by
  have hcomma : Reads (discard (acceptSymbol .comma)) [.symbol .comma] () fun _ => True :=
    discard_reads (accept_true rfl)
  refine Reads.bind hcomma leads_true (reads_of_not_empty ?_)
  exact Reads.bind (name_reads _ _) leads_true (Reads.bind (needSymbol_reads _ _) leads_true h.map)

theorem inclusion_reads {template : Expr}
    (htemplate : ReadsAt inner 6 (template.operandKinds 6) template)
    (hsubject : ∀ entry ∈ subject, ReadsAt inner 6 (entry.1.operandKinds 6) entry.1)
    (hbindings : ∀ entry ∈ bindings, Reads inner entry.2.kinds entry.2 (Stops 0)) :
    Reads (inclusion inner) (Statement.include template subject bindings).kinds
      (.include template subject bindings) AtEnd := by
  have hdone : Repeats (parameter? inner) AtEnd ([] ++ bindings) [] bindings :=
    .done (reads_atEnd rfl)
  have hrepeats : Repeats (parameter? inner) AtEnd []
      (bindings.flatMap (fun entry => .symbol .comma :: parameterKinds entry) ++ []) bindings :=
    Repeats.items id (fun taken entry hentry => parameter?_reads taken (hbindings entry hentry))
      (stops_of_none rfl) (fun _ h => h.elim) hdone
  rw [List.append_nil] at hrepeats
  have hlead : Leads (Stops 6) (subjectKinds subject ++
      bindings.flatMap fun entry => .symbol .comma :: parameterKinds entry) AtEnd := by
    cases subject with
    | none => exact leads_items_atEnd (stops_of_none rfl)
    | some entry => exact (stops_of_none rfl : Stops 6 (.ident "with"))
  have hends : Stops 6 (.symbol .comma) ∧ TokenKind.isWord "with" (.symbol .comma) = false ∧
    TokenKind.isWord "as" (.symbol .comma) = false := ⟨stops_of_none rfl, rfl, rfl⟩
  rw [Statement.kinds, List.append_assoc]
  refine Reads.bind htemplate hlead ((subject?_reads hsubject).bind (leads_items_atEnd hends) ?_)
  exact hrepeats.reads.map

end Forms

section Statements

theorem loop_nested {name : String} {source : Expr} {m : LoopModifiers} {written : List Modifier}
    (h : (Statement.loop name source m).Printable) (hwritten : written.Perm m.written)
    (hn : (Statement.loopKinds name source written).length ≤ n) :
    Reads (loop (nested n)) (Statement.loopKinds name source written) (.loop name source m)
      AtEnd := by
  obtain ⟨-, hsource, hlimit, hoffset⟩ := h
  simp only [Statement.loopKinds, List.length_append, List.length_cons] at hn
  have hoperands : ∀ x ∈ written, ∀ e ∈ x.operand?,
      ReadsAt (nested n) 6 (e.operandKinds 6) e := fun x hx e he => by
    have hprintable := LoopModifiers.printable_of_written hlimit hoffset (hwritten.mem_iff.mp hx)
    have hlength : x.kinds.length ≤ (written.flatMap Modifier.kinds).length :=
      length_le_flatMap Modifier.kinds hx
    exact readsAt_nested (hprintable e he) (Nat.le_refl 6)
      ((x.length_operand e he).trans (by omega))
  have hread : Reads (loop (nested n)) (Statement.loopKinds name source written)
      (.loop name source (written.foldl LoopModifiers.add {})) AtEnd :=
    loopKinds_reads (readsAt_nested hsource (Nat.le_refl 6) (by omega)) hoperands
  rwa [LoopModifiers.foldl_of_perm hwritten] at hread

theorem cycle_nested {group : Option Expr} {values : List Expr}
    (h : (Statement.cycle group values).Printable)
    (hn : (Statement.cycle group values).kinds.length ≤ n) :
    Reads (cycle (nested n)) (Statement.cycle group values).kinds (.cycle group values) AtEnd := by
  obtain ⟨hgroup, hne, hvalues⟩ := h
  obtain ⟨first, values, rfl⟩ := List.exists_cons_of_ne_nil hne
  simp only [Statement.kinds, List.length_append] at hn
  refine cycle_reads (fun e he => ?_) fun e he => ?_
  · obtain rfl := he
    rw [Option.elim_some, List.length_append] at hn
    exact (readBy_nested (hgroup e rfl) (by omega)).reads
  · have hle := length_le_commas (List.mem_map_of_mem (f := Expr.kinds) he)
    exact (readBy_nested (hvalues e he) (by omega)).reads

theorem when_nested {values : List Expr} (h : (Statement.when values).Printable)
    (hn : (Statement.when values).kinds.length ≤ n) :
    Reads (when (nested n)) (Statement.when values).kinds (.when values) AtEnd := by
  obtain ⟨hne, hvalues⟩ := h
  obtain ⟨first, values, rfl⟩ := List.exists_cons_of_ne_nil hne
  refine when_reads fun e he => ?_
  have hle := length_le_commas (List.mem_map_of_mem (f := Expr.operandKinds 4) he)
  exact readsAt_nested (hvalues e he) (by decide) (hle.trans hn)

theorem inclusion_nested {template : Expr} {subject : Option (Expr × Option String)}
    {bindings : List (String × Expr)} (h : (Statement.include template subject bindings).Printable)
    (hn : (Statement.include template subject bindings).kinds.length ≤ n) :
    Reads (inclusion (nested n)) (Statement.include template subject bindings).kinds
      (.include template subject bindings) AtEnd := by
  obtain ⟨htemplate, hsubject, hbindings⟩ := h
  simp only [Statement.kinds, List.length_append] at hn
  refine inclusion_reads (readsAt_nested htemplate (Nat.le_refl 6) (by omega))
    (fun entry hentry => ?_) fun entry hentry => ?_
  · obtain rfl := hentry
    simp only [subjectKinds, Option.elim_some, List.length_append, List.length_cons] at hn
    exact readsAt_nested (hsubject entry rfl).1 (Nat.le_refl 6) (by omega)
  · have hle : entry.2.kinds.length + 3 ≤
        (bindings.flatMap fun entry => .symbol .comma :: parameterKinds entry).length :=
      length_le_flatMap (fun entry => .symbol .comma :: parameterKinds entry) hentry
    exact (readBy_nested (hbindings entry hentry).2 (by omega)).reads

theorem statement_nested {s : Statement} (h : s.Printable) (hn : s.kinds.length ≤ n) :
    ReadsTo Statement.unplaced (statement (nested n) s.production) s.kinds s.unplaced AtEnd := by
  cases s with
  | expression e => exact (pipeline_nested h hn).map fun e' he => congrArg Statement.expression he
  | assignment name value =>
    simp only [Statement.kinds, List.length_cons] at hn
    refine (name_reads "variable name" name).bindTo leads_true ?_
    refine (needSymbol_reads "'='" .assign).bindTo leads_true ?_
    exact (pipeline_nested h.2 (by omega)).map fun e' he => congrArg (Statement.assignment name) he
  | loop name source m =>
    rw [← Statement.loopKinds_written] at hn ⊢
    exact (loop_nested h (.refl _) hn).readsTo _
  | cycle group values => exact (cycle_nested h hn).readsTo _
  | when values => exact (when_nested h hn).readsTo _
  | «include» template subject bindings => exact (inclusion_nested h hn).readsTo _

end Statements

section Tokens

variable {call : FilterCall} {s : Statement}

theorem printable_of_mem_kinds (h : e.Printable) : ∀ k ∈ e.kinds, k.Printable :=
  fun k hk => (Expr.inExpr_of_mem_kinds h k hk).printable

theorem printable_of_mem_commas {items : List (List TokenKind)}
    (h : ∀ kinds ∈ items, ∀ k ∈ kinds, k.Printable) : ∀ k ∈ commas items, k.Printable := by
  cases items with
  | nil => exact List.forall_mem_nil _
  | cons first items =>
    obtain ⟨hfirst, hitems⟩ := List.forall_mem_cons.mp h
    refine List.forall_mem_append.mpr ⟨hfirst, List.forall_mem_flatMap.mpr fun kinds hkinds => ?_⟩
    exact List.forall_mem_cons.mpr ⟨trivial, hitems kinds hkinds⟩

theorem printable_of_mem_parameterKinds {entry : String × Expr}
    (h : IsIdentifier entry.1 ∧ entry.2.Printable) : ∀ k ∈ parameterKinds entry, k.Printable :=
  List.forall_mem_cons.mpr ⟨h.1, List.forall_mem_cons.mpr ⟨trivial, printable_of_mem_kinds h.2⟩⟩

theorem printable_of_mem_call (h : call.Printable) : ∀ k ∈ call.kinds, k.Printable := by
  refine List.forall_mem_cons.mpr ⟨trivial, List.forall_mem_cons.mpr ⟨h.name, ?_⟩⟩
  split
  · exact List.forall_mem_nil _
  · refine List.forall_mem_cons.mpr ⟨trivial, printable_of_mem_commas ?_⟩
    refine List.forall_mem_append.mpr ⟨?_, ?_⟩
    · exact List.forall_mem_map.mpr fun e he => printable_of_mem_kinds (h.args e he)
    · exact List.forall_mem_map.mpr fun entry hentry =>
        printable_of_mem_parameterKinds (h.named entry hentry)

theorem printable_of_mem_pipelineKinds (h : e.PrintablePipeline) :
    ∀ k ∈ e.pipelineKinds, k.Printable := by
  obtain ⟨base, calls, rfl, hbase, hcalls, hkinds⟩ := exists_piped h
  rw [hkinds]
  exact List.forall_mem_append.mpr ⟨printable_of_mem_kinds hbase, List.forall_mem_flatMap.mpr
    fun call hcall => printable_of_mem_call (hcalls call hcall)⟩

theorem printable_of_mem_subjectKinds {subject : Option (Expr × Option String)}
    (h : ∀ entry ∈ subject, entry.1.Printable ∧ ∀ name ∈ entry.2, IsIdentifier name) :
    ∀ k ∈ subjectKinds subject, k.Printable := by
  cases subject with
  | none => exact List.forall_mem_nil _
  | some entry =>
    obtain ⟨value, given⟩ := entry
    obtain ⟨hvalue, hgiven⟩ := h _ rfl
    have hwith : IsIdentifier "with" := isIdentifier_of_letters (by decide) (by decide)
    refine List.forall_mem_append.mpr ⟨List.forall_mem_cons.mpr
      ⟨hwith, Expr.printable_of_mem_operandKinds hvalue 6⟩, ?_⟩
    cases given with
    | none => exact List.forall_mem_nil _
    | some name =>
      have has : IsIdentifier "as" := isIdentifier_of_letters (by decide) (by decide)
      exact List.forall_mem_cons.mpr ⟨has, List.forall_mem_singleton.mpr (hgiven name rfl)⟩

theorem printable_of_mem_statement (h : s.Printable) : ∀ k ∈ s.kinds, k.Printable := by
  cases s with
  | expression e => exact printable_of_mem_pipelineKinds h
  | assignment name value =>
    exact List.forall_mem_cons.mpr
      ⟨h.1, List.forall_mem_cons.mpr ⟨trivial, printable_of_mem_pipelineKinds h.2⟩⟩
  | loop name source m =>
    obtain ⟨hname, hsource, hlimit, hoffset⟩ := h
    have hin : IsIdentifier "in" := isIdentifier_of_letters (by decide) (by decide)
    rw [← Statement.loopKinds_written]
    refine List.forall_mem_append.mpr ⟨?_, List.forall_mem_flatMap.mpr fun x hx =>
      Modifier.printable_of_mem_kinds (LoopModifiers.printable_of_written hlimit hoffset hx)⟩
    exact List.forall_mem_cons.mpr ⟨hname, List.forall_mem_cons.mpr
      ⟨hin, Expr.printable_of_mem_operandKinds hsource 6⟩⟩
  | cycle group values =>
    obtain ⟨hgroup, -, hvalues⟩ := h
    refine List.forall_mem_append.mpr ⟨?_, printable_of_mem_commas (List.forall_mem_map.mpr
      fun e he => printable_of_mem_kinds (hvalues e he))⟩
    cases group with
    | none => exact List.forall_mem_nil _
    | some e =>
      exact List.forall_mem_append.mpr
        ⟨printable_of_mem_kinds (hgroup e rfl), List.forall_mem_singleton.mpr trivial⟩
  | when values =>
    exact printable_of_mem_commas (List.forall_mem_map.mpr
      fun e he => Expr.printable_of_mem_operandKinds (h.2 e he) 4)
  | «include» template subject bindings =>
    obtain ⟨htemplate, hsubject, hbindings⟩ := h
    refine List.forall_mem_append.mpr ⟨List.forall_mem_append.mpr
      ⟨Expr.printable_of_mem_operandKinds htemplate 6, printable_of_mem_subjectKinds hsubject⟩, ?_⟩
    refine List.forall_mem_flatMap.mpr fun entry hentry => ?_
    exact List.forall_mem_cons.mpr
      ⟨trivial, printable_of_mem_parameterKinds (hbindings entry hentry)⟩

end Tokens

section Texts

variable {β : Type} {f : α → β} {b : β}

/-- A text of printed tokens is read as a parser reads the tokens. -/
theorem read_printAll {p : Parser Expr → Parser α} (hkinds : ∀ k ∈ kinds, k.Printable)
    (h : ReadsTo f (p (nested kinds.length)) kinds b AtEnd) :
    ∃ a, read p (TokenKind.printAll kinds) = .ok a ∧ f a = b := by
  obtain ⟨tokens, hlex, hmap⟩ := Token.lex_printAll hkinds
  obtain ⟨a, hok, ha⟩ := h tokens [] hmap fun _ ht => nomatch ht
  refine ⟨a, ?_, ha⟩
  have hlength : tokens.length = kinds.length := by rw [← hmap, List.length_map]
  rw [List.append_nil] at hok
  have hwhole : whole (p (nested kinds.length)) tokens = .ok (a, []) := by
    rw [whole, bind_of_ok hok]
    rfl
  rw [read, hlex]
  simp only [bind, Except.bind, hlength, hwhole]
  rfl

end Texts

end Stencil.Parser

namespace Stencil

/-- Parsing undoes printing, up to the places of filter calls. -/
theorem parse_print :
    (∀ e : Expr, e.PrintablePipeline →
        ∃ e', Expr.parse e.print = .ok e' ∧ e'.unplaced = e.unplaced) ∧
      ∀ s : Statement, s.Printable →
        ∃ s', Statement.parse s.production s.print = .ok s' ∧ s'.unplaced = s.unplaced := by
  constructor
  · intro e he
    exact Parser.read_printAll (Parser.printable_of_mem_pipelineKinds he)
      (Parser.pipeline_nested he (Nat.le_refl _))
  · intro s hs
    exact Parser.read_printAll (Parser.printable_of_mem_statement hs)
      (Parser.statement_nested hs (Nat.le_refl _))

/-- The modifiers of a loop may be written in any order. -/
theorem Statement.parse_loopKinds {name : String} {source : Expr} {m : LoopModifiers}
    {written : List Modifier} (h : (Statement.loop name source m).Printable)
    (hwritten : written.Perm m.written) :
    Statement.parse .loop (TokenKind.printAll (loopKinds name source written)) =
      .ok (.loop name source m) := by
  have hperm : (loopKinds name source written).Perm (Statement.loop name source m).kinds := by
    rw [← loopKinds_written]
    exact (hwritten.flatMap_right _).append_left _
  have hkinds : ∀ k ∈ loopKinds name source written, k.Printable := fun k hk =>
    Parser.printable_of_mem_statement h k (hperm.mem_iff.mp hk)
  obtain ⟨_, hread, rfl⟩ := Parser.read_printAll (p := fun inner => Parser.statement inner .loop)
    hkinds ((Parser.loop_nested h hwritten (Nat.le_refl _)).readsTo id)
  exact hread

/-- A disjunction in parentheses, a negation without any, and arguments of both kinds. -/
def filteredExample : Expr :=
  .filtered (.binary .and (.binary .or (.variable "a") (.variable "b"))
    (.not (.property (.variable "c") "d")))
    [.mk "default" [.literal (.int 1)] [("allow", .literal (.bool true))] ⟨0, 0⟩]

def loopExample : Statement :=
  .loop "item" (.range (.literal (.int 1)) (.variable "n")) ⟨some (.literal (.int 2)), none, true⟩

theorem parse_print_filtered_and_loop :
    filteredExample.PrintablePipeline ∧ loopExample.Printable ∧
    filteredExample.print = "( a or b ) and not c . d | default : 1 , allow : true" ∧
    loopExample.print = "item in ( 1 .. n ) reversed limit : 2" ∧
    (∃ e', Expr.parse filteredExample.print = .ok e' ∧ e'.unplaced = filteredExample.unplaced) ∧
    ∃ s', Statement.parse .loop loopExample.print = .ok s' ∧
      s'.unplaced = loopExample.unplaced := by
  have hvariable : ∀ name ∈ ["a", "b", "c", "n"], (Expr.variable name).Printable := by
    intro name hname
    have hletters : name.toList ≠ [] ∧ name.toList.all Token.isNameStart = true ∧
        name ∉ reservedWords := by
      revert name
      decide
    exact ⟨isIdentifier_of_letters hletters.1 hletters.2.1, hletters.2.2⟩
  have hcall : FilterCall.Printable
      (.mk "default" [.literal (.int 1)] [("allow", .literal (.bool true))] ⟨0, 0⟩) :=
    ⟨isIdentifier_of_letters (by decide) (by decide),
      List.forall_mem_singleton.mpr (by decide : (0 : Int64) ≤ 1),
      List.forall_mem_singleton.mpr ⟨isIdentifier_of_letters (by decide) (by decide), trivial⟩⟩
  have hexpr : filteredExample.PrintablePipeline := by
    refine ⟨⟨⟨?_, ?_⟩, ?_, ?_⟩, List.cons_ne_nil _ _, List.forall_mem_singleton.mpr hcall⟩
    · exact hvariable "a" (by decide)
    · exact hvariable "b" (by decide)
    · exact hvariable "c" (by decide)
    · exact isIdentifier_of_letters (by decide) (by decide)
  have hloop : loopExample.Printable := by
    refine ⟨isIdentifier_of_letters (by decide) (by decide), ⟨?_, ?_⟩, ?_, ?_⟩
    · exact (by decide : (0 : Int64) ≤ 1)
    · exact hvariable "n" (by decide)
    · rintro e ⟨⟩
      exact (by decide : (0 : Int64) ≤ 2)
    · exact fun _ he => nomatch he
  exact ⟨hexpr, hloop, by rfl, by rfl, parse_print.1 _ hexpr, parse_print.2 _ hloop⟩

end Stencil
