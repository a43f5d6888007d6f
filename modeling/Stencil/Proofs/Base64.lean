import Mathlib
import Stencil.Engine
import Stencil.Proofs.Captures
import Stencil.Proofs.Sequences

/-!
# Base64 and back

Every byte is found again in the two values of six bits that it is divided among, and every value in
its symbol, so decoding undoes encoding, for each number of bytes in the last group. Symbols are in
ASCII, so a text of them has one byte for each, and what is decoded are the bytes of the text that
was encoded.
-/
namespace Stencil

namespace Text.Base64

/-! ### Bits as numbers -/

theorem toNat_high (v : UInt8) {k : UInt8} {p : ℕ} (hk : k.toNat < 8) (hp : 2 ^ k.toNat = p) :
    (v >>> k).toNat = v.toNat / p := by
  rw [UInt8.toNat_shiftRight, Nat.mod_eq_of_lt hk, Nat.shiftRight_eq_div_pow, hp]

theorem toNat_low (v : UInt8) {mask : UInt8} {k : ℕ} (hmask : mask.toNat = 2 ^ k - 1) :
    (v &&& mask).toNat = v.toNat % 2 ^ k := by
  rw [UInt8.toNat_and, hmask, Nat.and_two_pow_sub_one_eq_mod]

/-- A byte that is shifted to the left has room for what is less than the power of the places. -/
theorem toNat_joined (v : UInt8) {w k : UInt8} {p : ℕ} (hk : k.toNat < 8) (hp : 2 ^ k.toNat = p)
    (hw : w.toNat < p) : (v <<< k ||| w).toNat = v.toNat * p % 256 + w.toNat := by
  subst hp
  have hpow : 256 = 2 ^ (8 - k.toNat) * 2 ^ k.toNat := by
    rw [← Nat.pow_add, Nat.sub_add_cancel hk.le]
  have hshift : (v <<< k).toNat = (v.toNat % 2 ^ (8 - k.toNat)) <<< k.toNat := by
    rw [UInt8.toNat_shiftLeft, Nat.mod_eq_of_lt hk, Nat.shiftLeft_eq, Nat.shiftLeft_eq,
      ← Nat.mul_mod_mul_right, ← hpow]
  rw [UInt8.toNat_or, hshift, ← Nat.shiftLeft_add_eq_or_of_lt hw, Nat.shiftLeft_eq,
    ← Nat.mul_mod_mul_right, ← hpow]

/-! ### The values of a group -/

section

variable (a b c : UInt8)

theorem toNat_first : (a >>> 2).toNat = a.toNat / 4 := toNat_high a (by decide) rfl

theorem toNat_second :
    ((a &&& 3) <<< 4 ||| b >>> 4).toNat = a.toNat % 4 * 16 + b.toNat / 16 := by
  have hhigh : (a &&& 3).toNat = a.toNat % 4 := toNat_low a (k := 2) rfl
  have hlow : (b >>> 4).toNat = b.toNat / 16 := toNat_high b (by decide) rfl
  have hb := b.toNat_lt
  rw [toNat_joined (p := 16) _ (by decide) rfl (by omega), hhigh, hlow]
  omega

theorem toNat_third :
    ((b &&& 15) <<< 2 ||| c >>> 6).toNat = b.toNat % 16 * 4 + c.toNat / 64 := by
  have hhigh : (b &&& 15).toNat = b.toNat % 16 := toNat_low b (k := 4) rfl
  have hlow : (c >>> 6).toNat = c.toNat / 64 := toNat_high c (by decide) rfl
  have hc := c.toNat_lt
  rw [toNat_joined (p := 4) _ (by decide) rfl (by omega), hhigh, hlow]
  omega

theorem toNat_fourth : (c &&& 63).toNat = c.toNat % 64 := toNat_low c (k := 6) rfl

theorem first_lt : a >>> 2 < 64 := by
  have ha := a.toNat_lt
  rw [UInt8.lt_iff_toNat_lt, toNat_first]
  exact Nat.div_lt_of_lt_mul ha

theorem second_lt : (a &&& 3) <<< 4 ||| b >>> 4 < 64 := by
  have hb := b.toNat_lt
  rw [UInt8.lt_iff_toNat_lt, toNat_second, show (64 : UInt8).toNat = 64 from rfl]
  omega

theorem third_lt : (b &&& 15) <<< 2 ||| c >>> 6 < 64 := by
  have hc := c.toNat_lt
  rw [UInt8.lt_iff_toNat_lt, toNat_third, show (64 : UInt8).toNat = 64 from rfl]
  omega

theorem fourth_lt : c &&& 63 < 64 := by
  rw [UInt8.lt_iff_toNat_lt, toNat_fourth]
  exact Nat.mod_lt _ (by decide)

/-- The last value of a group that is cut short has no bits of a byte that is not there. -/
theorem second_of_last : (a &&& 3) <<< 4 = (a &&& 3) <<< 4 ||| (0 : UInt8) >>> 4 := by simp

theorem third_of_last : (b &&& 15) <<< 2 = (b &&& 15) <<< 2 ||| (0 : UInt8) >>> 6 := by simp

theorem second_low : ((a &&& 3) <<< 4 ||| (0 : UInt8) >>> 4) &&& 15 = 0 := by
  rw [← UInt8.toNat_inj, toNat_low (k := 4) _ rfl, toNat_second]
  simp

theorem third_low : ((b &&& 15) <<< 2 ||| (0 : UInt8) >>> 6) &&& 3 = 0 := by
  rw [← UInt8.toNat_inj, toNat_low (k := 2) _ rfl, toNat_third]
  simp

/-- The first byte is in the first value and the high bits of the second. -/
theorem first_byte : (a >>> 2) <<< 2 ||| ((a &&& 3) <<< 4 ||| b >>> 4) >>> 4 = a := by
  have ha := a.toNat_lt
  have hb := b.toNat_lt
  have hlow : (((a &&& 3) <<< 4 ||| b >>> 4) >>> 4).toNat = a.toNat % 4 := by
    rw [toNat_high (p := 16) _ (by decide) rfl, toNat_second]
    omega
  rw [← UInt8.toNat_inj, toNat_joined (p := 4) _ (by decide) rfl (by omega), toNat_first, hlow]
  omega

theorem second_byte :
    ((a &&& 3) <<< 4 ||| b >>> 4) <<< 4 ||| ((b &&& 15) <<< 2 ||| c >>> 6) >>> 2 = b := by
  have hb := b.toNat_lt
  have hc := c.toNat_lt
  have hlow : (((b &&& 15) <<< 2 ||| c >>> 6) >>> 2).toNat = b.toNat % 16 := by
    rw [toNat_high (p := 4) _ (by decide) rfl, toNat_third]
    omega
  rw [← UInt8.toNat_inj, toNat_joined (p := 16) _ (by decide) rfl (by omega), toNat_second, hlow]
  omega

theorem third_byte : ((b &&& 15) <<< 2 ||| c >>> 6) <<< 6 ||| (c &&& 63) = c := by
  have hc := c.toNat_lt
  have hlow : (c &&& 63).toNat < 64 := fourth_lt c
  rw [← UInt8.toNat_inj, toNat_joined (p := 64) _ (by decide) rfl hlow, toNat_third, toNat_fourth]
  omega

end

/-! ### Symbols -/

/-- The symbols of values below 64 can be checked one by one. -/
theorem symbol_of_lt {P : UInt8 → UInt8 → Prop}
    (h : ∀ n < 64, P (UInt8.ofNat n) (symbol (UInt8.ofNat n))) {v : UInt8} (hv : v < 64) :
    P v (symbol v) := by
  have hn := h v.toNat (UInt8.lt_iff_toNat_lt.mp hv)
  rwa [UInt8.ofNat_toNat] at hn

theorem value?_symbol {v : UInt8} (hv : v < 64) : value? (symbol v) = some v :=
  symbol_of_lt (P := fun v s => value? s = some v) (by decide) hv

theorem symbol_ne_pad {v : UInt8} (hv : v < 64) : symbol v ≠ pad :=
  symbol_of_lt (P := fun _ s => s ≠ pad) (by decide) hv

theorem symbol_lt {v : UInt8} (hv : v < 64) : symbol v < 128 :=
  symbol_of_lt (P := fun _ s => s < 128) (by decide) hv

theorem read_symbol {v : UInt8} (hv : v < 64) (offset : ℕ) : read offset (symbol v) = .ok v := by
  rw [read, value?_symbol hv]

/-! ### Groups -/

section

variable {v w x y : UInt8} (hv : v < 64) (hw : w < 64)
include hv hw

theorem decodeFrom_two (hlow : w &&& 15 = 0) (offset : ℕ) :
    decodeFrom offset [symbol v, symbol w, pad, pad] = .ok [v <<< 2 ||| w >>> 4] := by
  have hvalues : lastValues offset [symbol v, symbol w, pad, pad] = .ok [v, w] := by
    simp [lastValues, lastValues.tail, symbol_ne_pad, read_symbol, hv, hw, bind, Except.bind]
    rfl
  simp only [decodeFrom, decodeLast, hvalues]
  simp [bind, Except.bind, hlow]

theorem decodeFrom_three (hx : x < 64) (hlow : x &&& 3 = 0) (offset : ℕ) :
    decodeFrom offset [symbol v, symbol w, symbol x, pad] =
      .ok [v <<< 2 ||| w >>> 4, w <<< 4 ||| x >>> 2] := by
  have hvalues : lastValues offset [symbol v, symbol w, symbol x, pad] = .ok [v, w, x] := by
    simp [lastValues, lastValues.tail, symbol_ne_pad, read_symbol, hv, hw, hx, bind, Except.bind]
    rfl
  simp only [decodeFrom, decodeLast, hvalues]
  simp [bind, Except.bind, hlow]

theorem decodeFrom_four (hx : x < 64) (hy : y < 64) (offset : ℕ) :
    decodeFrom offset [symbol v, symbol w, symbol x, symbol y] =
      .ok [v <<< 2 ||| w >>> 4, w <<< 4 ||| x >>> 2, x <<< 6 ||| y] := by
  have hvalues : lastValues offset [symbol v, symbol w, symbol x, symbol y] =
      .ok [v, w, x, y] := by
    simp [lastValues, lastValues.tail, symbol_ne_pad, read_symbol, hv, hw, hx, hy, bind,
      Except.bind]
    rfl
  simp only [decodeFrom, decodeLast, hvalues]
  rfl

theorem decodeFrom_more (hx : x < 64) (hy : y < 64) {symbols bytes : List UInt8}
    (hne : symbols ≠ []) {offset : ℕ} (h : decodeFrom (offset + 4) symbols = .ok bytes) :
    decodeFrom offset (symbol v :: symbol w :: symbol x :: symbol y :: symbols) =
      .ok ((v <<< 2 ||| w >>> 4) :: (w <<< 4 ||| x >>> 2) :: (x <<< 6 ||| y) :: bytes) := by
  obtain ⟨s, rest, rfl⟩ := List.exists_cons_of_ne_nil hne
  simp only [decodeFrom, read_symbol hv, read_symbol hw, read_symbol hx, read_symbol hy, h]
  rfl

end

theorem encode_ne_nil {bytes : List UInt8} (h : bytes ≠ []) : encode bytes ≠ [] := by
  fun_cases encode bytes <;> simp_all

/-- Decoding undoes encoding, group by group. -/
theorem decodeFrom_encode (bytes : List UInt8) (offset : ℕ) :
    decodeFrom offset (encode bytes) = .ok bytes := by
  fun_induction encode bytes generalizing offset with
  | case1 => rfl
  | case2 a =>
    rw [second_of_last, decodeFrom_two (first_lt a) (second_lt a 0) (second_low a), first_byte]
  | case3 a b =>
    rw [third_of_last, decodeFrom_three (first_lt a) (second_lt a b) (third_lt b 0) (third_low b),
      first_byte, second_byte]
  | case4 a b c rest ih =>
    cases rest with
    | nil =>
      rw [encode, decodeFrom_four (first_lt a) (second_lt a b) (third_lt b c) (fourth_lt c),
        first_byte, second_byte, third_byte]
    | cons d rest =>
      rw [decodeFrom_more (first_lt a) (second_lt a b) (third_lt b c) (fourth_lt c)
        (encode_ne_nil (List.cons_ne_nil d rest)) (ih (offset + 4)),
        first_byte, second_byte, third_byte]

/-- Three bytes, or what is left of them, take four symbols. -/
theorem length_encode (bytes : List UInt8) :
    (encode bytes).length = 4 * ((bytes.length + 2) / 3) := by
  fun_induction encode bytes with
  | case1 | case2 | case3 => simp
  | case4 a b c rest ih =>
    simp only [List.length_cons, ih]
    omega

theorem decode_encode (bytes : List UInt8) : decode (encode bytes) = .ok bytes := by
  rw [decode]
  split
  · rename_i hnone
    have hlength := length_encode bytes
    rw [List.getLast?_eq_none_iff.mp hnone, List.length_nil] at hlength
    have hbytes : bytes = [] := List.length_eq_zero_iff.mp (by omega)
    rw [hbytes]
  · rw [if_neg, decodeFrom_encode]
    rintro ⟨hlength, -⟩
    rw [length_encode, Nat.mul_mod_right] at hlength
    cases hlength

/-- What is written is in ASCII. -/
theorem encode_lt (bytes : List UInt8) : ∀ s ∈ encode bytes, s < 128 := by
  have hpad : pad < 128 := by decide
  fun_induction encode bytes with
  | case1 => simp
  | case2 a =>
    rw [second_of_last]
    simp only [List.forall_mem_cons, symbol_lt, first_lt, second_lt, hpad, true_and,
      List.not_mem_nil, false_imp_iff, implies_true]
  | case3 a b =>
    rw [third_of_last]
    simp only [List.forall_mem_cons, symbol_lt, first_lt, second_lt, third_lt, hpad, true_and,
      List.not_mem_nil, false_imp_iff, implies_true]
  | case4 a b c rest ih =>
    simpa only [List.forall_mem_cons, symbol_lt, first_lt, second_lt, third_lt, fourth_lt,
      true_and] using ih

end Text.Base64

/-! ### Texts as bytes -/

namespace Text.Utf8

theorem toList_eq_data (bytes : ByteArray) : bytes.toList = bytes.data.toList := by
  have hloop (i : ℕ) (done : List UInt8) :
      ByteArray.toList.loop bytes i done = done.reverse ++ bytes.data.toList.drop i := by
    fun_induction ByteArray.toList.loop bytes i done with
    | case1 i done h ih =>
      have hi : i < bytes.data.toList.length := h
      have hget : bytes.get! i = bytes.data.toList[i] := getElem!_pos bytes.data i h
      rw [ih, List.drop_eq_getElem_cons hi, hget, List.reverse_cons, List.append_assoc]
      rfl
    | case2 i done h =>
      have hi : bytes.data.toList.length ≤ i := not_lt.mp h
      rw [List.drop_eq_nil_of_le hi, List.append_nil]
  exact hloop 0 []

theorem utf8EncodeChar_ascii {b : UInt8} (h : b < 128) :
    String.utf8EncodeChar (Char.ofNat b.toNat) = [b] := by
  have hall : ∀ n < 128, String.utf8EncodeChar (Char.ofNat n) = [UInt8.ofNat n] := by decide
  rw [hall b.toNat (UInt8.lt_iff_toNat_lt.mp h), UInt8.ofNat_toNat]

theorem toUTF8_ascii {bytes : List UInt8} (h : ∀ b ∈ bytes, b < 128) :
    (String.ofList (bytes.map fun b => Char.ofNat b.toNat)).toUTF8.toList = bytes := by
  rw [toList_eq_data, String.toUTF8_eq_toByteArray, String.toByteArray_ofList, List.utf8Encode,
    List.toList_data_toByteArray, List.flatMap_map]
  induction bytes with
  | nil => rfl
  | cons b bytes ih =>
    obtain ⟨hb, hbytes⟩ := List.forall_mem_cons.mp h
    rw [List.flatMap_cons, utf8EncodeChar_ascii hb, ih hbytes]
    rfl

theorem decodeLenient_toList (s : String) : decodeLenient ⟨s.toUTF8.toList.toArray⟩ = s := by
  rw [toList_eq_data, Array.toArray_toList, decodeLenient_toUTF8]

end Text.Utf8

theorem Text.Base64.decode_encodeText (s : String) :
    decode (encodeText s).toUTF8.toList = .ok s.toUTF8.toList := by
  rw [encodeText, Utf8.toUTF8_ascii (encode_lt _), decode_encode]

/-! ### Filters -/

namespace Filter

theorem base64Encode_call (s : String) (named : Bindings) :
    base64Encode.call [.str s] named = .ok (.str (Text.Base64.encodeText s)) := rfl

theorem base64Decode_call {s t : String}
    (h : Text.Base64.decode t.toUTF8.toList = .ok s.toUTF8.toList) (named : Bindings) :
    base64Decode.call [.str t] named = .ok (.str s) := by
  have hrun : base64Decode.run [.str t] named = .ok (.str s) := by
    change ((Text.Base64.decode t.toUTF8.toList).mapError FilterFault.base64 >>= fun bytes =>
      Except.ok (Value.str (Text.Utf8.decodeLenient ⟨bytes.toArray⟩))) = _
    rw [h]
    exact congrArg (fun text => Except.ok (Value.str text)) (Text.Utf8.decodeLenient_toList s)
  exact call_of_run rfl rfl hrun

end Filter

/-! ### Rendering -/

theorem Template.compile_output {g : Grammar} {source : SourceText} {body : String} {offset : ℕ}
    {span : Span} {e : Expr}
    (hscan : Piece.scan g.rawEnd? source.text = .ok [.output body offset span])
    (hbody : source.compileExpr offset g.filters body = .ok e) (origin : Origin) :
    compile g origin source = .ok ⟨[.output e (source.location span.start)], source⟩ := by
  have hsteps : [Piece.output body offset span].foldlM (Progress.step g source origin) {} =
      .ok { root := [.output e (source.location span.start)] } := by
    simp only [List.foldlM_cons, List.foldlM_nil, Progress.step, hbody]
    rfl
  simp only [compile, hscan, Except.mapError, bind, Except.bind]
  rw [hsteps]
  rfl

section

variable {session : Session} {bindings : Bindings}

open Render in
/-- A template of one output writes the value as it is displayed, and loads nothing. -/
theorem Session.render_output {e : Expr} {v : Value}
    (h : e.eval (session.engine.environment (Scope.ofBindings bindings)) = .ok v) (l : Location)
    (source : SourceText) :
    session.render ⟨[.output e l], source⟩ bindings {} (fun _ _ => false) =
      ((.ok (), { held := v.display.toUTF8 }), session) := by
  let k : Sink := { held := v.display.toUTF8 }
  have hput : (⟨[], {}⟩ : Outlet).put v.display = (.ok (), ⟨[], k⟩) := by
    simp [Outlet.put, Sink.write, Sink.encode, k]
  have hrun : run ⟨session.engine, fun _ _ => false⟩ [.output e l] (session.start bindings {}) =
      (.ok .normal, (session.start bindings {}).into ⟨[], k⟩ 1) := by
    rw [run, Machine.runWithin_eq]
    exact runNodes_singleton (runNode_output_of_eval l h hput 1)
  simp only [Session.render, Render.template]
  rw [discard_eq_bind, bind_of_ok (bind_of_ok hrun _)]
  rfl

/-- A value that is encoded and then decoded. -/
def throughBase64 (e : Expr) (p q : Span) : Expr :=
  .filtered e [.mk "base64_encode" [] [] p, .mk "base64_decode" [] [] q]

variable (hencode : session.engine.grammar.filter? "base64_encode" = some Filter.base64Encode)
  (hdecode : session.engine.grammar.filter? "base64_decode" = some Filter.base64Decode)
include hencode hdecode

theorem eval_throughBase64 {scope : Scope} {e : Expr} {s : String}
    (h : e.eval (session.engine.environment scope) = .ok (.str s)) (p q : Span) :
    (throughBase64 e p q).eval (session.engine.environment scope) = .ok (.str s) := by
  have hencode' : Table.find? "base64_encode" (session.engine.environment scope).filters =
      some Filter.base64Encode := hencode
  have hdecode' : Table.find? "base64_decode" (session.engine.environment scope).filters =
      some Filter.base64Decode := hdecode
  simp only [throughBase64, Expr.eval, h, Expr.applyCalls, Expr.evalArgs, Expr.evalNamed, hencode',
    hdecode', bind, Except.bind, Filter.base64Encode_call,
    Filter.base64Decode_call (Text.Base64.decode_encodeText s)]

theorem parse_throughBase64 (name : Option String) : ∃ p q l source,
    session.engine.parse name "\x7b\x7b s | base64_encode | base64_decode \x7d\x7d".toUTF8 =
      .ok ⟨[.output (throughBase64 (.variable "s") p q) l], source⟩ := by
  let source : SourceText := ⟨"\x7b\x7b s | base64_encode | base64_decode \x7d\x7d", name⟩
  let e : Expr := throughBase64 (.variable "s") ⟨5, 18⟩ ⟨21, 34⟩
  have hscan : Piece.scan session.engine.grammar.rawEnd? source.text =
      .ok [.output " s | base64_encode | base64_decode " 2 ⟨0, 39⟩] := by cbv
  have hparse : Expr.parse " s | base64_encode | base64_decode " = .ok e := by cbv
  have hknown : source.checkFilters 2 session.engine.grammar.filters e = .ok () := by
    rw [Grammar.filter?] at hencode hdecode
    simp [SourceText.checkFilters, e, throughBase64, Expr.filterCalls, Expr.ofCalls, Expr.ofArgs,
      Expr.ofNamed, FilterCall.name, Table.contains, hencode, hdecode]
  have hbody : source.compileExpr 2 session.engine.grammar.filters
      " s | base64_encode | base64_decode " = .ok e := by
    simp only [SourceText.compileExpr, hparse, Except.mapError, bind, Except.bind, hknown]
    rfl
  refine ⟨⟨5, 18⟩, ⟨21, 34⟩, source.location 0, source, ?_⟩
  rw [Engine.parse, Template.compileBytes, Text.Utf8.decode_toUTF8]
  exact Template.compile_output hscan hbody _

end

theorem filter?_addExtensionFilters (g : Grammar) :
    g.addExtensionFilters.filter? "base64_encode" = some Filter.base64Encode ∧
      g.addExtensionFilters.filter? "base64_decode" = some Filter.base64Decode := by
  have hfilters : g.addExtensionFilters.filters =
      Table.insert "jq" Filter.jq (Table.insert "base64_decode" Filter.base64Decode
        (Table.insert "base64_encode" Filter.base64Encode g.filters)) := rfl
  simp [Grammar.filter?, hfilters, Table.find?_insert]

end Stencil
