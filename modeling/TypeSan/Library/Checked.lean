/-! Results that may be faults: what a computation can end with, and how that composes. -/
namespace Checked

variable {ε α β : Type} {fault fault' : ε → Prop} {post post' : α → Prop}

/-- The computation ends with a value that meets `post`, or with a fault that `fault` allows. -/
def Meets (fault : ε → Prop) (post : α → Prop) : Except ε α → Prop
  | .ok a => post a
  | .error e => fault e

@[simp] theorem meets_ok {a : α} : Meets fault post (.ok a) ↔ post a := Iff.rfl

@[simp] theorem meets_error {e : ε} : Meets fault post (.error e : Except ε α) ↔ fault e := Iff.rfl

@[simp] theorem meets_pure {a : α} : Meets fault post (pure a) ↔ post a := Iff.rfl

theorem Meets.mono {r : Except ε α} (h : Meets fault post r) (hfault : ∀ e, fault e → fault' e)
    (hpost : ∀ a, post a → post' a) : Meets fault' post' r := by
  cases r with
  | ok a => exact hpost a h
  | error e => exact hfault e h

@[simp] theorem ok_bind {a : α} {f : α → Except ε β} : (Except.ok a >>= f) = f a := rfl

/-- The rule of sequences. -/
theorem Meets.bind {r : Except ε α} {f : α → Except ε β} {m : α → Prop} {post : β → Prop}
    (h : Meets fault m r) (hf : ∀ a, m a → Meets fault post (f a)) :
    Meets fault post (r >>= f) := by
  cases r with
  | ok a => exact hf a h
  | error e => exact h

theorem Meets.of_ok {r : Except ε α} {a : α} (h : Meets fault post r) (hr : r = .ok a) : post a := by
  rwa [hr] at h

theorem Meets.of_error {r : Except ε α} {e : ε} (h : Meets fault post r) (hr : r = .error e) :
    fault e := by
  rwa [hr] at h

/-- Where no fault is allowed there is a value. -/
theorem Meets.exists_ok {r : Except ε α} (h : Meets (fun _ => False) post r) :
    ∃ a, r = .ok a ∧ post a := by
  cases r with
  | ok a => exact ⟨a, rfl, h⟩
  | error e => exact h.elim

/-- A sequence has a value where both parts have. -/
theorem bind_ok_iff {r : Except ε α} {f : α → Except ε β} {b : β} :
    r >>= f = .ok b ↔ ∃ a, r = .ok a ∧ f a = .ok b := by
  cases r with
  | ok a =>
    constructor
    · intro h
      exact ⟨a, rfl, h⟩
    · rintro ⟨a', ha, h⟩
      rwa [← Except.ok.inj ha] at h
  | error e =>
    constructor
    · intro h
      cases h
    · rintro ⟨a, ha, -⟩
      cases ha

end Checked
