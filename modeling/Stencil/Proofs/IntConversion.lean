import Mathlib.Algebra.Order.Floor.Ring
import Mathlib.Data.Rat.Floor
import Mathlib.Tactic.Linarith
import Stencil.Proofs.Instruction

/-!
# Conversion to whole numbers

The filter that converts to whole numbers takes a whole number as it is, or as a text writes it.
Otherwise it takes the whole part of a double, or of the double that a text writes, and its fallback
where there is none. It fails for infinite doubles only (`int_filter_falls_back`).
-/

namespace Stencil

namespace Binary64

/-- The number `mantissa * 2 ^ exponent`. -/
def scaled (mantissa : Nat) (exponent : Int) : ℚ :=
  mantissa * 2 ^ exponent

theorem scaled_nonneg (m : Nat) (e : Int) : 0 ≤ scaled m e :=
  mul_nonneg (Nat.cast_nonneg m) (zpow_pos two_pos e).le

theorem twoPow_cast (n : Nat) : ((twoPow n : Nat) : ℚ) = 2 ^ n := by
  show ((2 ^ n : Nat) : ℚ) = _
  push_cast
  rfl

theorem scaled_ofNat (m e : Nat) : scaled m (.ofNat e) = ((m * twoPow e : Nat) : ℤ) := by
  rw [scaled, Int.ofNat_eq_natCast, zpow_natCast, Int.cast_natCast, Nat.cast_mul, twoPow_cast]

theorem scaled_negSucc (m e : Nat) :
    scaled m (.negSucc e) = ((m : ℤ) : ℚ) / (twoPow (e + 1) : Nat) := by
  rw [scaled, zpow_negSucc, twoPow_cast, Int.cast_natCast, ← div_eq_mul_inv]

/-- A number with a sign. -/
def signed (negative : Bool) (x : ℚ) : ℚ :=
  if negative then -x else x

/-- The number that a double stands for, if it stands for one. -/
def number? (x : Float) : Option ℚ :=
  match parts x with
  | .finite negative m e => some (signed negative (scaled m e))
  | _ => none

/-- Whether a double stands for infinity. -/
def isInfinite (x : Float) : Bool :=
  match parts x with
  | .infinite _ => true
  | _ => false

/-- A number without its part behind the point. -/
def wholePart (q : ℚ) : ℤ :=
  if q < 0 then ⌈q⌉ else ⌊q⌋

theorem wholePart_neg (q : ℚ) : wholePart (-q) = -wholePart q := by
  unfold wholePart
  rcases lt_trichotomy q 0 with h | rfl | h
  · rw [if_neg (by linarith), if_pos h, Int.floor_neg]
  · simp
  · rw [if_pos (by linarith), if_neg (by linarith), Int.ceil_neg]

theorem wholePart_signed (negative : Bool) (q : ℚ) :
    wholePart (signed negative q) = if negative then -wholePart q else wholePart q := by
  cases negative with
  | false => rfl
  | true => exact wholePart_neg q

/-- The whole part of a double is that of the number it stands for. -/
theorem truncParts_eq (negative : Bool) (m : Nat) (e : Int) :
    truncParts negative m e = wholePart (signed negative (scaled m e)) := by
  have hfloor : wholePart (scaled m e) = ⌊scaled m e⌋ := if_neg (not_lt.2 (scaled_nonneg m e))
  rw [wholePart_signed, hfloor]
  cases e with
  | ofNat e =>
    rw [scaled_ofNat, Int.floor_intCast]
    rfl
  | negSucc e =>
    rw [scaled_negSucc, Rat.floor_intCast_div_natCast]
    rfl

end Binary64

open Binary64

theorem Number.truncate_eq (x : Float) : Number.truncate x =
      match number? x with
      | some q => .ok (wholePart q)
      | none => .error (if isInfinite x then .infinityToInt else .nanToInt) := by
  unfold Number.truncate Binary64.number? isInfinite
  cases parts x with
  | finite negative m e => exact congrArg Except.ok (truncParts_eq negative m e)
  | infinite negative => rfl
  | nan => rfl

/-- The whole number that a value is, or that it writes as a text. -/
def Value.whole? : Value → Option Int
  | .str s => Reading.int? s
  | v => v.int?

/-- The double that a value is, or that it writes as a text. -/
def Value.double? : Value → Option Float
  | .float x => some x
  | .str s => Reading.float? s
  | _ => Option.none

namespace BuiltinFilter

open Eval

/-- The conversion of a double. -/
def ofDouble (x : Float) : Except Fault (Option Int) :=
  if isInfinite x then .error .infinityToInt else .ok ((Binary64.number? x).map wholePart)

theorem truncate_or_none (x : Float) : (match Number.truncate x with
      | .ok n => .ok (some n)
      | .error f => if f.family = .value then .ok none else .error f) = ofDouble x := by
  rw [Number.truncate_eq]
  unfold ofDouble Binary64.number? isInfinite
  cases parts x <;> rfl

/-- A value is converted as a whole number, and otherwise as a double. -/
theorem toInt_eq (v : Value) : toInt v =
      match v.whole? with
      | some n => .ok (some n)
      | none =>
        match v.double? with
        | some x => ofDouble x
        | none => .ok none := by
  cases v
  case float x => exact truncate_or_none x
  case str s =>
    unfold toInt Value.whole? Value.double?
    dsimp only
    cases Reading.int? s with
    | some n => rfl
    | none =>
      cases Reading.float? s with
      | none => rfl
      | some x => exact truncate_or_none x
  all_goals rfl

/-- Whether there is only an infinite double to convert. -/
def isBeyond (v : Value) : Bool :=
  v.whole?.isNone && v.double?.any isInfinite

/-- The whole number to which a value is converted. -/
def converted? (v : Value) : Option Int :=
  v.whole?.or ((v.double?.bind Binary64.number?).map wholePart)

theorem toInt_of_beyond {v : Value} (h : isBeyond v = true) : toInt v = .error .infinityToInt := by
  obtain ⟨hwhole, hdouble⟩ := Bool.and_eq_true_iff.1 h
  obtain ⟨x, hx, hinf⟩ := (Option.any_eq_true _ _).1 hdouble
  rw [toInt_eq, Option.isNone_iff_eq_none.1 hwhole, hx]
  exact if_pos hinf

theorem toInt_of_not_beyond {v : Value} (h : isBeyond v = false) :
    toInt v = .ok (converted? v) := by
  rw [toInt_eq]
  unfold isBeyond at h
  unfold converted?
  cases hwhole : v.whole? with
  | some n => rfl
  | none =>
    rw [hwhole] at h
    cases hdouble : v.double? with
    | none => rfl
    | some x =>
      rw [hdouble] at h
      have hinf : isInfinite x = false := h
      show ofDouble x = _
      rw [ofDouble, hinf]
      rfl

section

variable {call : Call} {v : Value} {rest : List Value} {w : World}

theorem outcome_int_of_error {f : Fault} (h : toInt v = .error f) :
    (run call .int (v :: rest)).outcome w = (.error (.fault f), w) := by
  show outcome (Eval.ofExcept (toInt v) >>= _) w = _
  rw [h]
  rfl

theorem outcome_int_of_none (h : toInt v = .ok none) :
    (run call .int (v :: rest)).outcome w = (.ok (rest.headD (.ofInt 0)), w) := by
  show outcome (Eval.ofExcept (toInt v) >>= _) w = _
  rw [h]
  rfl

theorem outcome_int_of_some {n : Int} (h : toInt v = .ok (some n)) :
    ∃ z u, (run call .int (v :: rest)).outcome w = (.ok z, u) ∧ z.int? = some n := by
  show ∃ (z : Value) (u : World), outcome (Eval.ofExcept (toInt v) >>= _) w = (Except.ok z, u) ∧
    z.int? = some n
  obtain ⟨_, _, hnew⟩ := outcome_newInt n w
  rw [h]
  cases v
  case int m => exact ⟨_, w, rfl, Except.ok.inj h⟩
  all_goals exact ⟨_, _, hnew, rfl⟩

end

/-- The filter gives the whole number that a value is or writes, or else the whole part of the
double that it is or writes, or else the fallback. It fails just if that double is infinite. -/
theorem int_filter_falls_back (call : Call) (v : Value) (fallback? : Option Value) (w : World) :
    (isBeyond v = true → (apply call .int (v :: fallback?.toList)).outcome w =
      (.error (.fault .infinityToInt), w)) ∧
    (isBeyond v = false → ∃ z u, (apply call .int (v :: fallback?.toList)).outcome w = (.ok z, u) ∧
      (∀ n, converted? v = some n → z.int? = some n) ∧
      (converted? v = none → z = fallback?.getD (.ofInt 0))) := by
  have hrun : apply call .int (v :: fallback?.toList) = run call .int (v :: fallback?.toList) := by
    cases fallback? <;> rfl
  rw [hrun]
  constructor
  · intro h
    exact outcome_int_of_error (toInt_of_beyond h)
  · intro h
    have hconverted := toInt_of_not_beyond h
    cases hc : converted? v with
    | none =>
      rw [hc] at hconverted
      refine ⟨_, w, outcome_int_of_none hconverted, nofun, fun _ => ?_⟩
      cases fallback? <;> rfl
    | some n =>
      rw [hc] at hconverted
      obtain ⟨z, u, hz, hn⟩ := outcome_int_of_some hconverted
      exact ⟨z, u, hz, fun _ h => hn.trans h, nofun⟩

/-- A text that writes a decimal number. -/
theorem int_of_decimal_text : isBeyond (.ofText "3.7") = false ∧
      ∃ z u, (apply (Engine.call 9) .int [.ofText "3.7"]).outcome {} = (.ok z, u) ∧
        z.int? = some 3 := by
  have hbeyond : isBeyond (.ofText "3.7") = false := by decide +kernel
  have hconverted : converted? (.ofText "3.7") = some 3 := by decide +kernel
  obtain ⟨z, u, hrun, hz, -⟩ :=
    (int_filter_falls_back (Engine.call 9) (.ofText "3.7") none {}).2 hbeyond
  exact ⟨hbeyond, z, u, hrun, hz 3 hconverted⟩

/-- Infinity is not converted, although there is a fallback. -/
theorem int_of_infinity_fails :
    (match ((apply (Engine.call 9) .int [.float (o := .shared) (Binary64.infinity false),
        .ofInt 7]).outcome {}).1 with
      | .error (.fault f) => some f.message
      | _ => none) = some "cannot convert float infinity to integer" := by
  decide +kernel

end BuiltinFilter

end Stencil
