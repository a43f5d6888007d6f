import Mathlib
import Stencil.Proofs.Lexemes
import Stencil.Proofs.Prefixes
import Stencil.Proofs.Roundtrip

/-!
# Subscripts

Numbers in brackets after a variable are steps of its path, as many as there are. After points a
single number is one: two numbers with a point between are a decimal, which is no step.
-/
namespace Stencil

namespace Token

variable {afterOperand : Bool} {pos : Nat} {rest whole fraction : List Char} {n m : Int64}
  {ns : List Int64}

theorem isDigits_intText (hn : 0 ≤ n) : IsDigits (Json.intText n.toInt).toList := by
  rw [toList_intText hn]
  exact ⟨Nat.toDigits_ne_nil, fun c hc => Decimal.isDigit_of_mem_digits hc⟩

theorem exists_readFloat (hwhole : IsDigits whole) (hfraction : IsDigits fraction) :
    ∃ x, Decimal.readFloat? (String.ofList (whole ++ '.' :: fraction)) = some x := by
  obtain ⟨c, cs, rfl⟩ := List.exists_cons_of_ne_nil hwhole.1
  have hsign :
      Decimal.dropSign (c :: (cs ++ '.' :: fraction)) = (false, c :: cs ++ '.' :: fraction) := by
    have hc : c.isDigit := hwhole.2 c List.mem_cons_self
    unfold Decimal.dropSign
    split
    · rename_i h
      cases h
      cases hc
    · rename_i h
      cases h
      cases hc
    · rfl
  have hpoint : ∀ d ∈ ('.' :: fraction).head?, d.isDigit = false := by
    rintro _ ⟨⟩
    decide
  obtain ⟨htake, hdrop⟩ := takeWhile_stop hwhole.2 hpoint
  obtain ⟨htake', hdrop'⟩ := @takeWhile_stop _ _ [] hfraction.2 (by simp)
  rw [List.append_nil] at htake' hdrop'
  obtain ⟨x, hx⟩ : ∃ x, Decimal.readMagnitude? (c :: cs ++ '.' :: fraction) = some x := by
    refine
      ⟨Decimal.floatOfDecimal (Decimal.natOfDigits (c :: cs ++ fraction)) (0 - fraction.length), ?_⟩
    simp only [Decimal.readMagnitude?, htake, hdrop, htake', hdrop']
    rfl
  rw [List.cons_append] at hx
  simp only [Decimal.readFloat?, String.toList_ofList, List.cons_append, hsign, hx,
    Bool.false_eq_true, if_false]
  split_ifs <;> exact ⟨_, rfl⟩

theorem lexeme_float (hwhole : IsDigits whole) (hfraction : IsDigits fraction)
    (hrest : ∀ c ∈ rest.head?, c.isDigit = false) : ∃ x,
      Decimal.readFloat? (String.ofList (whole ++ '.' :: fraction)) = some x ∧
      lexeme afterOperand (whole ++ '.' :: (fraction ++ rest))
        = .ok ⟨.float x, whole ++ '.' :: fraction, rest⟩ := by
  obtain ⟨x, hx⟩ := exists_readFloat hwhole hfraction
  refine ⟨x, hx, ?_⟩
  obtain ⟨c, cs, rfl⟩ := List.exists_cons_of_ne_nil hwhole.1
  obtain ⟨hc, hcs⟩ := List.forall_mem_cons.mp hwhole.2
  have hstarts : startsNumber afterOperand (c :: (cs ++ '.' :: (fraction ++ rest))) := by
    simp [startsNumber, hc]
  have hnumber : number (c :: (cs ++ '.' :: fraction)) = .ok (.float x) := by
    rw [List.cons_append] at hx
    have hpoint : '.' ∈ c :: (cs ++ '.' :: fraction) := by simp
    simp only [number, if_pos hpoint, hx]
  rw [List.cons_append, lexeme]
  simp only [hstarts, digitsLexeme_of_fraction hcs hfraction hrest, hnumber, if_true,
    List.cons_append]

theorem lexeme_dot (hrest : ∀ c ∈ rest.head?, c ≠ '.') :
    lexeme afterOperand ('.' :: rest) = .ok ⟨.symbol .dot, ['.'], rest⟩ := by
  cases rest with
  | nil => simp [lexeme, startsNumber, isNameStart, symbolLexeme?]
  | cons c rest => 
    have hc : c ≠ '.' := hrest c rfl
    simp [lexeme, startsNumber, isNameStart, symbolLexeme?, hc]

theorem lexFrom_token {cs text : List Char} {kind : TokenKind} {tokens : List Token}
    (h : lexeme afterOperand cs = .ok ⟨kind, text, rest⟩) (hkind : kind ≠ .eof)
    (hrest : lexFrom (pos + byteLength text) kind.endsOperand rest = .ok tokens) :
    lexFrom pos afterOperand cs = .ok (⟨kind, ⟨pos, pos + byteLength text⟩⟩ :: tokens) := by
  cases cs with
  | nil =>
    cases h
    exact absurd rfl hkind
  | cons c cs => exact lexFrom_of_lexeme h hrest

/-- Numbers in brackets, one after another. -/
def bracketSteps (ns : List Int64) : List Char :=
  ns.flatMap fun n => '[' :: (Json.intText n.toInt).toList ++ [']']

/-- Numbers with a point before each. -/
def pointSteps (ns : List Int64) : List Char :=
  ns.flatMap fun n => '.' :: (Json.intText n.toInt).toList

theorem bracketSteps_cons (n : Int64) (ns : List Int64) : bracketSteps (n :: ns)
    = '[' :: ((Json.intText n.toInt).toList ++ ']' :: bracketSteps ns) := by
  simp [bracketSteps]

theorem pointSteps_cons (n : Int64) (ns : List Int64) : pointSteps (n :: ns)
    = '.' :: ((Json.intText n.toInt).toList ++ pointSteps ns) := by
  simp [pointSteps]

theorem lexFrom_bracketSteps (hns : ∀ n ∈ ns, 0 ≤ n) (pos : Nat) (afterOperand : Bool) :
    ∃ tokens, lexFrom pos afterOperand (bracketSteps ns) = .ok tokens ∧ tokens.map kind
      = ns.flatMap fun n => [.symbol .leftBracket, .int n, .symbol .rightBracket] := by
  induction ns generalizing pos afterOperand with
  | nil => exact ⟨[], by rw [bracketSteps, List.flatMap_nil, lexFrom], rfl⟩
  | cons n ns ih =>
    obtain ⟨hn, hns⟩ := List.forall_mem_cons.mp hns
    have hleft (b : Bool) (rest : List Char) :
        lexeme b ('[' :: rest) = .ok ⟨.symbol .leftBracket, ['['], rest⟩ := by
      simp [lexeme, startsNumber, isNameStart, symbolLexeme?]
    have hright (b : Bool) (rest : List Char) :
        lexeme b (']' :: rest) = .ok ⟨.symbol .rightBracket, [']'], rest⟩ := by
      simp [lexeme, startsNumber, isNameStart, symbolLexeme?]
    have hends : EndsNumeral (']' :: bracketSteps ns) := endsNumeral_of_isBreak rfl
    obtain ⟨tokens, htokens, hkinds⟩ := ih hns (pos + byteLength ['[']
      + byteLength (Json.intText n.toInt).toList + byteLength [']']) true
    have hclose := lexFrom_token (hright true _) TokenKind.noConfusion htokens
    have hint : lexeme false ((Json.intText n.toInt).toList ++ ']' :: bracketSteps ns)
        = .ok ⟨.int n, (Json.intText n.toInt).toList, ']' :: bracketSteps ns⟩ := lexeme_int hn hends
    have hnumber := lexFrom_token hint TokenKind.noConfusion hclose
    have hopen := lexFrom_token (hleft afterOperand _) TokenKind.noConfusion hnumber
    rw [bracketSteps_cons]
    exact ⟨_, hopen, by rw [List.map_cons, List.map_cons, List.map_cons, hkinds]; rfl⟩

theorem endsNumeral_nil : EndsNumeral [] := by
  refine ⟨fun c hc => ?_, fun c later h => ?_⟩
  · cases hc
  · cases h

theorem isDigit_pointSteps (ns : List Int64) : ∀ c ∈ (pointSteps ns).head?, c.isDigit = false := by
  cases ns with
  | nil => exact fun c hc => by cases hc
  | cons n ns =>
    rw [pointSteps_cons]
    rintro _ ⟨⟩
    decide

theorem ne_dot_of_isDigits {text : List Char} (h : IsDigits text) :
    ∀ c ∈ (text ++ rest).head?, c ≠ '.' := by
  obtain ⟨d, ds, rfl⟩ := List.exists_cons_of_ne_nil h.1
  rintro _ ⟨⟩ rfl
  cases h.2 '.' List.mem_cons_self

/-- A point with a number behind it, the last one. -/
theorem lexFrom_pointStep (hn : 0 ≤ n) :
    lexFrom pos afterOperand (pointSteps [n]) = .ok
      [⟨.symbol .dot, ⟨pos, pos + byteLength ['.']⟩⟩,
        ⟨.int n, ⟨pos + byteLength ['.'],
          pos + byteLength ['.'] + byteLength (Json.intText n.toInt).toList⟩⟩] := by
  have hnil (pos : Nat) (b : Bool) : lexFrom pos b [] = .ok [] := by rw [lexFrom]
  rw [pointSteps_cons]
  refine lexFrom_token (lexeme_dot (ne_dot_of_isDigits (isDigits_intText hn)))
    TokenKind.noConfusion ?_
  exact lexFrom_token (lexeme_int hn endsNumeral_nil) TokenKind.noConfusion (hnil _ _)

/-- A point with two numbers behind it makes a decimal of them. -/
theorem lexFrom_pointSteps_cons {tokens : List Token} (hn : 0 ≤ n) (hm : 0 ≤ m)
    (hrest : lexFrom (pos + byteLength ['.'] + byteLength ((Json.intText n.toInt).toList ++
      '.' :: (Json.intText m.toInt).toList)) true (pointSteps ns) = .ok tokens) : ∃ x,
      Decimal.readFloat? (Json.intText n.toInt ++ "." ++ Json.intText m.toInt) = some x ∧
      lexFrom pos afterOperand (pointSteps (n :: m :: ns)) = .ok
        (⟨.symbol .dot, ⟨pos, pos + byteLength ['.']⟩⟩ ::
          ⟨.float x, ⟨pos + byteLength ['.'], pos + byteLength ['.'] +
            byteLength ((Json.intText n.toInt).toList ++ '.' :: (Json.intText m.toInt).toList)⟩⟩ ::
          tokens) := by
  obtain ⟨x, hx, hfloat⟩ := @lexeme_float false _ _ _ (isDigits_intText hn) (isDigits_intText hm)
    (isDigit_pointSteps ns)
  have htext : String.ofList ((Json.intText n.toInt).toList ++ '.' :: (Json.intText m.toInt).toList)
      = Json.intText n.toInt ++ "." ++ Json.intText m.toInt := by
    rw [← String.toList_inj, String.toList_ofList, String.toList_append, String.toList_append]
    simp
  refine ⟨x, ?_, ?_⟩
  · rw [← htext]
    exact hx
  · rw [pointSteps_cons, pointSteps_cons]
    refine lexFrom_token (lexeme_dot (ne_dot_of_isDigits (isDigits_intText hn)))
      TokenKind.noConfusion ?_
    exact lexFrom_token hfloat TokenKind.noConfusion hrest

/-- Numbers with points before are tokens, two of them at a time. -/
theorem exists_lexFrom_pointSteps (pos : Nat) (afterOperand : Bool) : ∀ ns : List Int64,
    (∀ n ∈ ns, 0 ≤ n) → ∃ tokens, lexFrom pos afterOperand (pointSteps ns) = .ok tokens
  | [], _ => ⟨[], by rw [pointSteps, List.flatMap_nil, lexFrom]⟩
  | [n], hns => ⟨_, lexFrom_pointStep (hns n List.mem_cons_self)⟩
  | n :: m :: ns, hns => by
    obtain ⟨hn, hm, hns⟩ := List.forall_mem_cons.mp hns |>.imp_right List.forall_mem_cons.mp
    obtain ⟨tokens, htokens⟩ := exists_lexFrom_pointSteps _ true ns hns
    obtain ⟨x, -, h⟩ := lexFrom_pointSteps_cons hn hm htokens
    exact ⟨_, h⟩

end Token

namespace Parser

variable {inner : Parser Expr} {ts rest : List Token} {kinds : List TokenKind} {e : Expr}
  {s : String} {tokens : List Token} {stuck : Stuck} {n : Nat} {v : String}

/-- A text whose tokens are read as an expression is that expression. -/
theorem parse_of_reads (hlex : Token.lex s = .ok tokens)
    (h : Reads (nested tokens.length) (tokens.map Token.kind) e (Stops 0)) :
    Expr.parse s = .ok e := by
  have hread : nested tokens.length (tokens ++ []) = .ok (e, []) :=
    h tokens [] rfl fun t ht => by cases ht
  rw [List.append_nil] at hread
  refine read_eq_ok.mpr ⟨tokens, [], hlex, ?_⟩
  have hpipeline : pipeline (nested tokens.length) tokens = .ok (e, []) := by
    rw [pipeline, bind_of_ok hread]
    rfl
  rw [whole, bind_of_ok hpipeline]
  rfl

/-- A point with a number is a step of a path. -/
theorem ContinuesAt.position (h : ContinuesAt inner 6 kinds e) (i : Int64) :
    ContinuesAt inner 6 (kinds ++ [.symbol .dot, .int i]) (.index e (.literal (.int i))) := by
  refine Continues.next h (stops_of_tightest _) ?_
  intro ts rest hts _
  obtain ⟨⟨_, dot⟩, ts, rfl, rfl, hnumber⟩ := List.map_eq_cons_iff.mp hts
  obtain ⟨⟨_, span⟩, ts, rfl, rfl, hnil⟩ := List.map_eq_cons_iff.mp hnumber
  rw [List.map_eq_nil_iff.mp hnil]
  rfl

/-- Where the path that a text begins with fails, the text does. -/
theorem nested_eq_error (h : path (nested n) ts = .error stuck)
    (hnot : Next (fun kind => kind.isWord "not" = false) ts) :
    nested (n + 1) ts = .error stuck := by
  have hmarks : extend notStep? 0 ts = .ok (0, ts) :=
    (Repeats.done (notStep?_stops 0)).reads [] ts rfl hnot
  have hcomparison : comparison (nested n) ts = .error stuck :=
    bind_of_error (bind_of_error (bind_of_error h _) _) _
  have hnegation : negation (nested n) ts = .error stuck :=
    (bind_of_ok hmarks _).trans (bind_of_error hcomparison _)
  exact bind_of_error (bind_of_error hnegation _) _

/-- A point with neither a name nor a number behind it. -/
theorem parse_error_of_member {first dot next : Token} {later : List Token}
    (hfirst : atom? first.kind = some e) (hnot : first.kind.isWord "not" = false)
    (hdot : dot.kind = .symbol .dot) (hnext : ∀ base,
      member base (dot :: next :: later) = .error ⟨.expected "property name after '.'", next :: later⟩)
    (hlex : Token.lex s = .ok (first :: dot :: next :: later)) :
    Expr.parse s = .error ⟨.expected "property name after '.'" next.kind, next.span⟩ := by
  have hprimary : primary (nested (later.length + 2)) (first :: dot :: next :: later)
      = .ok (e, dot :: next :: later) :=
    primary_atom (P := fun _ => True) hfirst [first] _ rfl fun _ _ => trivial
  have hstep : pathStep? (nested (later.length + 2)) e (dot :: next :: later)
      = .error ⟨.expected "property name after '.'", next :: later⟩ := by
    rw [pathStep?_of_dot e (isSymbol_eq_true.mpr hdot)]
    exact bind_of_error (hnext e) _
  have hpath : path (nested (later.length + 2)) (first :: dot :: next :: later)
      = .error ⟨.expected "property name after '.'", next :: later⟩ := by
    rw [path, bind_of_ok hprimary, extend, get_bind]
    exact bind_of_error hstep _
  have hnested := nested_eq_error hpath (next_cons hnot)
  have hpipeline := bind_of_error hnested fun base => do
    let calls ← extend (callStep? (nested (later.length + 3))) []
    return if calls.isEmpty then base else .filtered base calls
  exact (read_eq_error hlex).mpr ⟨_, bind_of_error hpipeline _, rfl⟩

end Parser

namespace Expr

/-- A variable with a number as each step of its path. -/
def subscripted (v : String) (ns : List Int64) : Expr :=
  ns.foldl (fun base n => .index base (.literal (.int n))) (.variable v)

theorem subscripted_append (v : String) (ns : List Int64) (n : Int64) :
    subscripted v (ns ++ [n]) = .index (subscripted v ns) (.literal (.int n)) := by
  rw [subscripted, List.foldl_append]
  rfl

theorem level_subscripted (v : String) (ns : List Int64) : (subscripted v ns).level = 6 := by
  induction ns using List.reverseRecOn with
  | nil => rfl
  | append_singleton ns n _ =>
    rw [subscripted_append]
    rfl

theorem kinds_subscripted (v : String) (ns : List Int64) : (subscripted v ns).kinds
    = .ident v :: ns.flatMap fun n => [.symbol .leftBracket, .int n, .symbol .rightBracket] := by
  induction ns using List.reverseRecOn with
  | nil => rfl
  | append_singleton ns n ih =>
    rw [subscripted_append, kinds, level_subscripted, ih, List.flatMap_append]
    simp [TokenKind.wrap, kinds, Value.literalKind]

theorem printable_subscripted {v : String} {ns : List Int64} (hv : IsIdentifier v)
    (hreserved : v ∉ reservedWords) (hns : ∀ n ∈ ns, 0 ≤ n) : (subscripted v ns).Printable := by
  induction ns using List.reverseRecOn with
  | nil => exact ⟨hv, hreserved⟩
  | append_singleton ns n ih =>
    obtain ⟨hns, hn⟩ := List.forall_mem_append.mp hns
    rw [subscripted_append]
    exact ⟨ih hns, hn n List.mem_cons_self⟩

end Expr

section Texts

variable {v : String} {n : Int64} {ns : List Int64}

theorem toList_bracketed (v : String) (ns : List Int64) :
    (v ++ String.join (ns.map fun i => "[" ++ Json.intText i.toInt ++ "]")).toList
      = v.toList ++ Token.bracketSteps ns := by
  simp [String.toList_append, String.toList_join, Token.bracketSteps, List.flatMap_map]

theorem toList_pointed (v : String) (ns : List Int64) :
    (v ++ String.join (ns.map fun i => "." ++ Json.intText i.toInt)).toList
      = v.toList ++ Token.pointSteps ns := by
  simp [String.toList_append, String.toList_join, Token.pointSteps, List.flatMap_map]

/-- A text that begins with a name begins with that token. -/
theorem lex_variable {s : String} {rest : List Char} {tokens : List Token} (hv : IsIdentifier v)
    (hs : s.toList = v.toList ++ rest) (hends : Token.EndsName rest)
    (hrest : Token.lexFrom v.utf8ByteSize true rest = .ok tokens) :
    Token.lex s = .ok (⟨.ident v, ⟨0, v.utf8ByteSize⟩⟩ :: tokens) := by
  have hsize : 0 + byteLength v.toList = v.utf8ByteSize := by rw [Nat.zero_add, byteLength_toList]
  have hname : Token.lexeme false (v.toList ++ rest) = .ok ⟨.ident v, v.toList, rest⟩ :=
    Token.lexeme_name hv hends
  rw [← hsize] at hrest ⊢
  rw [Token.lex, hs]
  exact Token.lexFrom_token hname TokenKind.noConfusion hrest

theorem parse_bracketed (hv : IsIdentifier v) (hreserved : v ∉ reservedWords)
    (hns : ∀ i ∈ ns, 0 ≤ i) :
    Expr.parse (v ++ String.join (ns.map fun i => "[" ++ Json.intText i.toInt ++ "]"))
      = .ok (Expr.subscripted v ns) := by
  have hends : Token.EndsName (Token.bracketSteps ns) := by
    cases ns with
    | nil => exact fun c hc => by cases hc
    | cons n ns =>
      rw [Token.bracketSteps_cons]
      rintro _ ⟨⟩
      decide
  obtain ⟨tokens, htokens, hkinds⟩ :=
    Token.lexFrom_bracketSteps hns v.utf8ByteSize true
  have hlex := lex_variable hv (toList_bracketed v ns) hends htokens
  have hprintable := Expr.printable_subscripted hv hreserved hns
  refine Parser.parse_of_reads hlex ?_
  rw [List.map_cons, hkinds, ← Expr.kinds_subscripted]
  refine (Parser.readBy_nested hprintable ?_).reads
  rw [Expr.kinds_subscripted, ← hkinds, List.length_cons, List.length_map, List.length_cons]

theorem endsName_pointSteps (ns : List Int64) : Token.EndsName (Token.pointSteps ns) := by
  cases ns with
  | nil => exact fun c hc => by cases hc
  | cons n ns =>
    rw [Token.pointSteps_cons]
    rintro _ ⟨⟩
    decide

theorem parse_pointed_single (hv : IsIdentifier v) (hreserved : v ∉ reservedWords) (hn : 0 ≤ n) :
    Expr.parse (v ++ String.join ([n].map fun i => "." ++ Json.intText i.toInt))
      = .ok (Expr.subscripted v [n]) := by
  have hatom := Expr.isAtom_variable hv hreserved
  have hlex := lex_variable hv (toList_pointed v [n]) (endsName_pointSteps [n])
    (Token.lexFrom_pointStep hn)
  refine Parser.parse_of_reads hlex ?_
  have hvariable : Parser.ContinuesAt (Parser.nested 2) 6 [.ident v] (.variable v) :=
    Parser.ContinuesAt.primary (Parser.primary_atom hatom.atom)
  have hpath : Parser.BeginsAt (Parser.nested 2) 6 [.ident v, .symbol .dot, .int n]
      (Expr.subscripted v [n]) := hvariable.position n
  have hnot : (TokenKind.ident v).isWord "not" = false := hatom.not_not
  exact (hpath.of_le (Nat.zero_le 6) (Nat.le_refl 6) fun _ => hnot).readsAt (Nat.zero_le 6)

theorem parse_pointed_many {m : Int64} (hv : IsIdentifier v) (hreserved : v ∉ reservedWords)
    (hns : ∀ i ∈ n :: m :: ns, 0 ≤ i) : ∃ x,
      Decimal.readFloat? (Json.intText n.toInt ++ "." ++ Json.intText m.toInt) = some x ∧
      Expr.parse (v ++ String.join ((n :: m :: ns).map fun i => "." ++ Json.intText i.toInt))
        = .error ⟨.expected "property name after '.'" (.float x), ⟨v.utf8ByteSize + 1,
          v.utf8ByteSize + 1 +
            (Json.intText n.toInt ++ "." ++ Json.intText m.toInt).utf8ByteSize⟩⟩ := by
  have hatom := Expr.isAtom_variable hv hreserved
  obtain ⟨hn, hm, hns⟩ := List.forall_mem_cons.mp hns |>.imp_right List.forall_mem_cons.mp
  obtain ⟨tokens, htokens⟩ := Token.exists_lexFrom_pointSteps _ true ns hns
  obtain ⟨x, hx, hsteps⟩ := Token.lexFrom_pointSteps_cons hn hm htokens
  have hlex := lex_variable hv (toList_pointed v _) (endsName_pointSteps _) hsteps
  refine ⟨x, hx, ?_⟩
  have hpoint : byteLength ['.'] = 1 := rfl
  have hdecimal : byteLength ((Json.intText n.toInt).toList ++ '.' :: (Json.intText m.toInt).toList)
      = (Json.intText n.toInt ++ "." ++ Json.intText m.toInt).utf8ByteSize := by
    rw [← byteLength_toList, String.toList_append, String.toList_append, List.append_assoc]
    rfl
  rw [Parser.parse_error_of_member hatom.atom hatom.not_not rfl (fun base => rfl) hlex, hpoint,
    hdecimal]

end Texts

/-- Numbers in brackets after a variable are the steps of its path. After points they are where
there is a single one; of several the first two are read as a decimal, which is not what a point
asks for. -/
theorem parse_subscripts {v : String} {n : Int64} {ns : List Int64} (hv : IsIdentifier v)
    (hreserved : v ∉ reservedWords) (hns : ∀ i ∈ n :: ns, 0 ≤ i) :
    Expr.parse (v ++ String.join ((n :: ns).map fun i => "[" ++ Json.intText i.toInt ++ "]"))
      = .ok (Expr.subscripted v (n :: ns)) ∧
    match ns with
    | [] => Expr.parse (v ++ String.join ((n :: ns).map fun i => "." ++ Json.intText i.toInt))
      = .ok (Expr.subscripted v (n :: ns))
    | m :: _ => ∃ x,
      Decimal.readFloat? (Json.intText n.toInt ++ "." ++ Json.intText m.toInt) = some x ∧
      Expr.parse (v ++ String.join ((n :: ns).map fun i => "." ++ Json.intText i.toInt))
        = .error ⟨.expected "property name after '.'" (.float x), ⟨v.utf8ByteSize + 1,
          v.utf8ByteSize + 1 +
            (Json.intText n.toInt ++ "." ++ Json.intText m.toInt).utf8ByteSize⟩⟩ := by
  refine ⟨parse_bracketed hv hreserved hns, ?_⟩
  cases ns with
  | nil => exact parse_pointed_single hv hreserved (hns n List.mem_cons_self)
  | cons m ns => exact parse_pointed_many hv hreserved hns

/-- Two steps of a path, in brackets and with points. -/
theorem parse_subscripts_two : IsIdentifier "v" ∧ "v" ∉ reservedWords ∧
    (∀ i ∈ [(1 : Int64), 2], 0 ≤ i) ∧
    Expr.parse "v[1][2]"
      = .ok (.index (.index (.variable "v") (.literal (.int 1))) (.literal (.int 2))) ∧
    ∃ x, Decimal.readFloat? "1.2" = some x ∧
      Expr.parse "v.1.2" = .error ⟨.expected "property name after '.'" (.float x), ⟨2, 5⟩⟩ := by
  have hv : IsIdentifier "v" := isIdentifier_of_letters (by decide) (by decide)
  have hreserved : "v" ∉ reservedWords := by decide
  have hns : ∀ i ∈ [(1 : Int64), 2], 0 ≤ i :=
    List.forall_mem_cons.mpr ⟨by decide, List.forall_mem_singleton.mpr (by decide)⟩
  have hsteps : "v" ++ String.join
      ([(1 : Int64), 2].map fun i => "[" ++ Json.intText i.toInt ++ "]") = "v[1][2]" := by cbv
  have hpoints : "v" ++ String.join ([(1 : Int64), 2].map fun i => "." ++ Json.intText i.toInt)
      = "v.1.2" := by cbv
  have hdecimal :
      Json.intText (1 : Int64).toInt ++ "." ++ Json.intText (2 : Int64).toInt = "1.2" := by cbv
  obtain ⟨hbracketed, x, hx, hpointed⟩ := parse_subscripts hv hreserved hns
  rw [hsteps] at hbracketed
  rw [hpoints, hdecimal] at hpointed
  rw [hdecimal] at hx
  exact ⟨hv, hreserved, hns, hbracketed, x, hx, hpointed⟩

/-- Two steps of a path that are written with points are not what they are in brackets. -/
theorem pointed_ne_bracketed : IsIdentifier "v" ∧ "v" ∉ reservedWords ∧
    Expr.parse "v.1.2" ≠ Expr.parse "v[1][2]" := by
  have hv : IsIdentifier "v" := isIdentifier_of_letters (by decide) (by decide)
  have hreserved : "v" ∉ reservedWords := by decide
  have hns : ∀ i ∈ [(1 : Int64), 2], 0 ≤ i :=
    List.forall_mem_cons.mpr ⟨by decide, List.forall_mem_singleton.mpr (by decide)⟩
  have hpoints : "v" ++ String.join ([(1 : Int64), 2].map fun i => "." ++ Json.intText i.toInt)
      = "v.1.2" := by cbv
  have hbracketed : Expr.parse "v[1][2]"
      = .ok (.index (.index (.variable "v") (.literal (.int 1))) (.literal (.int 2))) := by cbv
  obtain ⟨x, -, hpointed⟩ := parse_pointed_many hv hreserved hns
  rw [hpoints] at hpointed
  refine ⟨hv, hreserved, fun hsame => ?_⟩
  rw [hpointed, hbracketed] at hsame
  cases hsame

end Stencil
