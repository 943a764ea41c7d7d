import Apes.Lib.CString

/-!
# String functions that check their accesses

`strcmp` and `strcpy` go from byte to byte until they meet a NUL, and nothing else holds
them. Here an access that leaves the array is a fault. On strings that end within their
arrays, with a destination that is long enough, there is none, and the results are those
of `strcmp` and `strcpy`.
-/

namespace Apes

/-- An access that leaves an array. -/
inductive Overrun
  | read
  | write
  deriving DecidableEq, Repr

/-- `strcmp(a, b)` -/
def checkedStrcmp : List UInt8 → List UInt8 → Except Overrun ℤ
  | x :: a, y :: b =>
    if x = y then (if x = 0 then .ok 0 else checkedStrcmp a b)
    else .ok (if x < y then -1 else 1)
  | _, _ => .error .read

/-- `strcpy(dst, src)`; the result is the array behind `dst`. -/
def checkedStrcpy : List UInt8 → List UInt8 → Except Overrun (List UInt8)
  | _, [] => .error .read
  | [], _ :: _ => .error .write
  | _ :: dst, x :: src =>
    if x = 0 then .ok (0 :: dst) else (checkedStrcpy dst src).map (x :: ·)

theorem checkedStrcmp_eq {a b : List UInt8} (ha : 0 ∈ a) (hb : 0 ∈ b) :
    checkedStrcmp a b = .ok (strcmp a b) := by
  induction a generalizing b with
  | nil => cases ha
  | cons x a ih =>
    cases b with
    | nil => cases hb
    | cons y b =>
      by_cases hxy : x = y
      · subst hxy
        by_cases hx : x = 0
        · simp [checkedStrcmp, strcmp, hx]
        · have ha' : 0 ∈ a := (List.mem_cons.mp ha).resolve_left (Ne.symm hx)
          have hb' : 0 ∈ b := (List.mem_cons.mp hb).resolve_left (Ne.symm hx)
          simp only [checkedStrcmp, strcmp, if_true, if_neg hx]
          exact ih ha' hb'
      · simp only [checkedStrcmp, strcmp, if_neg hxy]

@[simp] theorem strcpy_nul (d : UInt8) (dst src : List UInt8) :
    strcpy (d :: dst) (0 :: src) = 0 :: dst := by
  simp [strcpy]

@[simp] theorem strcpy_cons {x : UInt8} (hx : x ≠ 0) (d : UInt8) (dst src : List UInt8) :
    strcpy (d :: dst) (x :: src) = x :: strcpy dst src := by
  simp [strcpy, hx]

theorem checkedStrcpy_eq {dst src : List UInt8} (hsrc : 0 ∈ src)
    (hlen : (strBytes src).length < dst.length) :
    checkedStrcpy dst src = .ok (strcpy dst src) := by
  induction src generalizing dst with
  | nil => cases hsrc
  | cons x src ih =>
    cases dst with
    | nil => exact absurd hlen (Nat.not_lt_zero _)
    | cons d dst =>
      by_cases hx : x = 0
      · simp [checkedStrcpy, hx]
      · have hsrc' : 0 ∈ src := (List.mem_cons.mp hsrc).resolve_left (Ne.symm hx)
        have hlen' : (strBytes src).length < dst.length := by
          rw [strBytes_cons hx, List.length_cons, List.length_cons] at hlen
          omega
        rw [checkedStrcpy, if_neg hx, ih hsrc' hlen', strcpy_cons hx]
        rfl

end Apes
