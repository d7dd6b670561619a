import Mathlib.Algebra.Order.Ring.Int
import TypeSan.MmapHooks

/-! The hook of `sbrk`, over any sequence of moves of the break. -/
namespace TypeSan

open PageMap Rounding Runs

/-- `rounded_length` of the `sbrk` hook, an `unsigned int`. The increment is signed, and its
division goes towards zero. -/
def sbrkLength (increment : Int) : Nat :=
  (Int.tdiv (increment + METALLOC_PAGESIZE - 1) METALLOC_PAGESIZE * METALLOC_PAGESIZE % 2 ^ 32).toNat

/-- The end of the `sbrk` hook. -/
def MirrorState.sbrkHook (s : MirrorState) (increment : Int) (result sentinel : Nat) :
    Option MirrorState :=
  let s := s.withSentinel sentinel
  s.setEntries result (sbrkLength increment) s.metalloc_sentinel 63

/-- A call, with the page that the system gives for the sentinel if there is none yet. -/
structure SbrkCall where
  increment : Int
  sentinel : Nat
  deriving DecidableEq

/-- The break, with the page table and the sentinel. -/
structure BreakState extends MirrorState where
  brk : Nat

namespace SbrkCall

variable (call : SbrkCall)

/-- The break that the call moves to. -/
def newBreak (brk : Nat) : Int := brk + call.increment

/-- The system carries the call out. -/
def Granted (s : BreakState) : Prop :=
  0 ≤ call.newBreak s.brk ∧ call.newBreak s.brk ≤ 2 ^ 47 ∧ UserPage call.sentinel

end SbrkCall

/-- `sbrk` returns the old break. -/
def BreakState.sbrk (s : BreakState) (call : SbrkCall) : Option BreakState :=
  (s.sbrkHook call.increment s.brk call.sentinel).map fun mirror =>
    { mirror with brk := (call.newBreak s.brk).toNat }

/-- What a call should do to the page table. -/
structure BreakState.Follows (s s' : BreakState) : Prop where
  added : ∀ page, Touches s.brk s'.brk page →
    s'.pageTable page = sentinelEntry s'.metalloc_sentinel
  other : ∀ page, ¬ Touches (min s.brk s'.brk) (max s.brk s'.brk) page →
    s'.pageTable page = s.pageTable page

/-- The call returns, and does so. -/
def SbrkCall.Followed (s : BreakState) (call : SbrkCall) : Prop :=
  ∃ s', s.sbrk call = some s' ∧ s.Follows s'

/-- The pages that have to have their entry before the call. Of those that a growth adds, the pages
after the first `⌈increment / 4096⌉`, which are counted modulo `2 ^ 20`. With a decrement of 8191
bytes or more, the pages above the old break, of which there are up to `2 ^ 20 - k`. -/
def SbrkCall.Missed (call : SbrkCall) (brk page : Nat) : Prop :=
  if 0 ≤ call.increment then
    Touches brk (brk + call.increment.toNat) page ∧
      brk / METALLOC_PAGESIZE + granules call.increment.toNat METALLOC_PAGESHIFT % 2 ^ 20 ≤ page
  else
    let k := ((-call.increment).toNat - (METALLOC_PAGESIZE - 1)) / METALLOC_PAGESIZE
    brk ≤ page * METALLOC_PAGESIZE ∧
      page < brk / METALLOC_PAGESIZE + (2 ^ 20 - k % 2 ^ 20) % 2 ^ 20

/-- They have it. -/
def SbrkCall.Harmless (s : BreakState) (call : SbrkCall) : Prop :=
  ∀ page, call.Missed s.brk page →
    s.pageTable page = sentinelEntry (s.withSentinel call.sentinel).metalloc_sentinel

/-! Which pages a call writes. -/

theorem dvd_sbrkLength (increment : Int) : METALLOC_PAGESIZE ∣ sbrkLength increment := by
  simp only [sbrkLength, METALLOC_PAGESIZE, METALLOC_PAGESHIFT]
  omega

theorem sbrkLength_lt (increment : Int) : sbrkLength increment < 2 ^ 32 := by
  unfold sbrkLength
  omega

/-- A growth by whole pages or parts of them. -/
theorem sbrkLength_grow (n : Nat) : sbrkLength n / METALLOC_PAGESIZE =
    granules n METALLOC_PAGESHIFT % 2 ^ 20 := by
  have hsum : (n : Int) + METALLOC_PAGESIZE - 1 = (n + 4095 : Nat) := by
    simp only [METALLOC_PAGESIZE, METALLOC_PAGESHIFT]
    omega
  rw [sbrkLength, hsum, Int.natCast_tdiv_eq_ediv]
  simp only [granules, METALLOC_PAGESIZE, METALLOC_PAGESHIFT]
  omega

/-- A decrement turns into a length close to `2 ^ 32`, or into none. -/
theorem sbrkLength_shrink (n : Nat) : sbrkLength (-n) / METALLOC_PAGESIZE =
    (2 ^ 20 - (n - (METALLOC_PAGESIZE - 1)) / METALLOC_PAGESIZE % 2 ^ 20) % 2 ^ 20 := by
  rcases Nat.lt_or_ge n 4095 with hlt | hge
  · have hsum : (-n : Int) + METALLOC_PAGESIZE - 1 = (4095 - n : Nat) := by
      simp only [METALLOC_PAGESIZE, METALLOC_PAGESHIFT]
      omega
    rw [sbrkLength, hsum, Int.natCast_tdiv_eq_ediv, show METALLOC_PAGESIZE = 4096 from rfl]
    omega
  · have hsum : (-n : Int) + METALLOC_PAGESIZE - 1 = -(n - (METALLOC_PAGESIZE - 1) : Nat) := by
      simp only [METALLOC_PAGESIZE, METALLOC_PAGESHIFT]
      omega
    rw [sbrkLength, hsum, Int.neg_tdiv, ← Int.ofNat_tdiv]
    generalize (n - (METALLOC_PAGESIZE - 1)) / METALLOC_PAGESIZE = k
    simp only [METALLOC_PAGESIZE, METALLOC_PAGESHIFT]
    omega

/-- The pages of an added range that a growth misses are missed, and so are the others that a
decrement writes. -/
theorem SbrkCall.missed_iff {call : SbrkCall} {brk page : Nat} (h : 0 ≤ call.newBreak brk) :
    call.Missed brk page ↔
      (Touches brk (call.newBreak brk).toNat page ∧ ¬ InRange (brk / METALLOC_PAGESIZE)
        (sbrkLength call.increment / METALLOC_PAGESIZE) page) ∨
      (¬ Touches (min brk (call.newBreak brk).toNat) (max brk (call.newBreak brk).toNat) page ∧
        InRange (brk / METALLOC_PAGESIZE) (sbrkLength call.increment / METALLOC_PAGESIZE) page) := by
  obtain ⟨increment, sentinel⟩ := call
  rcases le_or_gt 0 increment with hgrow | hshrink
  · obtain ⟨n, rfl⟩ := Int.eq_ofNat_of_zero_le hgrow
    have hnew : (newBreak ⟨n, sentinel⟩ brk).toNat = brk + n := Int.toNat_natCast (brk + n)
    have hlength : sbrkLength (increment ⟨n, sentinel⟩) / METALLOC_PAGESIZE =
      granules n METALLOC_PAGESHIFT % 2 ^ 20 := sbrkLength_grow n
    rw [hnew, hlength, Nat.min_eq_left (Nat.le_add_right brk n),
      Nat.max_eq_right (Nat.le_add_right brk n)]
    simp only [Missed, if_pos hgrow, Int.toNat_natCast, touches_iff, InRange, granules,
      METALLOC_PAGESIZE, METALLOC_PAGESHIFT]
    omega
  · obtain ⟨n, hn⟩ := Int.eq_ofNat_of_zero_le (Int.neg_nonneg_of_nonpos hshrink.le)
    obtain rfl : increment = -n := by omega
    have hle : n ≤ brk := by
      simp only [newBreak] at h
      omega
    have hnew : (newBreak ⟨-n, sentinel⟩ brk).toNat = brk - n := by
      simp only [newBreak]
      omega
    have hlength : sbrkLength (increment ⟨-n, sentinel⟩) / METALLOC_PAGESIZE = _ :=
      sbrkLength_shrink n
    rw [hnew, hlength, Nat.min_eq_right (Nat.sub_le brk n), Nat.max_eq_left (Nat.sub_le brk n)]
    simp only [Missed, if_neg hshrink.not_ge, neg_neg, Int.toNat_natCast,
      touches_iff, InRange]
    generalize (2 ^ 20 - (n - (METALLOC_PAGESIZE - 1)) / METALLOC_PAGESIZE % 2 ^ 20) % 2 ^ 20 = k
    simp only [METALLOC_PAGESIZE, METALLOC_PAGESHIFT]
    omega

namespace BreakState

variable {s s' : BreakState} {call : SbrkCall}

/-- Every call returns, and gives the sentinel entry to a range of pages from the old break on. -/
theorem sbrk_eq (hs : s.metalloc_sentinel < 2 ^ 47) (h : UserPage call.sentinel) :
    ∃ s', s.sbrk call = some s' ∧ s'.brk = (call.newBreak s.brk).toNat ∧
      s'.metalloc_sentinel = (s.withSentinel call.sentinel).metalloc_sentinel ∧
      ∀ page, s'.pageTable page =
        if InRange (s.brk / METALLOC_PAGESIZE) (sbrkLength call.increment / METALLOC_PAGESIZE) page then
          sentinelEntry (s.withSentinel call.sentinel).metalloc_sentinel
        else s.pageTable page := by
  obtain ⟨hpos, hlt⟩ := MirrorState.withSentinel_page hs h
  obtain ⟨mirror, hmirror, hsentinel, htable⟩ := MirrorState.setEntries_sentinel s.brk
    (dvd_sbrkLength call.increment) (sbrkLength_lt call.increment) hpos hlt
  refine ⟨{ mirror with brk := (call.newBreak s.brk).toNat }, ?_, rfl, hsentinel, ?_⟩
  · rw [sbrk, MirrorState.sbrkHook, hmirror]
    rfl
  · intro page
    rw [htable, MirrorState.withSentinel_pageTable]

theorem sbrk_sentinel (hs : s.metalloc_sentinel < 2 ^ 47) (h : UserPage call.sentinel)
    (hs' : s.sbrk call = some s') : s'.metalloc_sentinel < 2 ^ 47 := by
  obtain ⟨t, ht, -, hsentinel, -⟩ := sbrk_eq hs h
  obtain rfl := Option.some.inj (ht.symm.trans hs')
  rw [hsentinel]
  exact (MirrorState.withSentinel_page hs h).2

/-- A call goes right when the pages that it misses have their entry already. -/
theorem followed_iff (hs : s.metalloc_sentinel < 2 ^ 47) (h : call.Granted s) :
    call.Followed s ↔ call.Harmless s := by
  obtain ⟨t, ht, hbrk, hsentinel, htable⟩ := sbrk_eq hs h.2.2
  constructor
  · rintro ⟨s', hs', hfollows⟩ page hmissed
    obtain rfl := Option.some.inj (ht.symm.trans hs')
    rcases (SbrkCall.missed_iff h.1).mp hmissed with ⟨htouch, hout⟩ | ⟨houtside, hin⟩
    · have hadded := hfollows.added page (by rwa [hbrk])
      rwa [htable, if_neg hout, hsentinel] at hadded
    · have hother := hfollows.other page (by rwa [hbrk])
      rw [htable, if_pos hin] at hother
      exact hother.symm
  · intro hharmless
    refine ⟨t, ht, ?_, ?_⟩
    · intro page htouch
      rw [htable, hsentinel]
      split
      · rfl
      · rename_i hout
        rw [hbrk] at htouch
        exact hharmless page ((SbrkCall.missed_iff h.1).mpr (Or.inl ⟨htouch, hout⟩))
    · intro page houtside
      rw [htable]
      split
      · rename_i hin
        rw [hbrk] at houtside
        exact (hharmless page ((SbrkCall.missed_iff h.1).mpr (Or.inr ⟨houtside, hin⟩))).symm
      · rfl

end BreakState

/-- Over any sequence of successful calls, the table follows the break exactly if each call finds
the pages that it misses in order. -/
theorem sbrk_followed_iff {s : BreakState} {calls : List SbrkCall}
    (hs : s.metalloc_sentinel < 2 ^ 47)
    (hgranted : Guarded BreakState.sbrk (fun s call => call.Granted s) s calls) :
    Guarded BreakState.sbrk (fun s call => call.Followed s) s calls ↔
      Guarded BreakState.sbrk (fun s call => call.Harmless s) s calls := by
  apply guarded_congr (I := fun s => s.metalloc_sentinel < 2 ^ 47) hs _ hgranted
  · intro t call ht hcall
    exact BreakState.followed_iff ht hcall
  · intro t call u ht hcall hu
    exact BreakState.sbrk_sentinel ht hcall.2.2 hu

/-- No heap yet. -/
def BreakState.initial (brk : Nat) : BreakState := { MirrorState.initial fun _ => 0 with brk }

/-- A growth by two pages and a part, and the end of that part. -/
theorem sbrk_followed_of_grow :
    Guarded BreakState.sbrk (fun s call => call.Followed s) (.initial 0x600000)
      [⟨0x2345, 0x8000⟩, ⟨-0x345, 0x8000⟩] := by
  have hs : (BreakState.initial 0x600000).metalloc_sentinel < 2 ^ 47 := by decide
  have hpage : UserPage 0x8000 := by
    simp only [UserPage]
    decide
  have hbrk (t : BreakState) (ht : (BreakState.initial 0x600000).sbrk ⟨0x2345, 0x8000⟩ = some t) :
      t.brk = 0x602345 := by
    obtain ⟨u, hu, hbrk, -⟩ := BreakState.sbrk_eq hs
      (show UserPage (⟨0x2345, 0x8000⟩ : SbrkCall).sentinel from hpage)
    exact Option.some.inj (hu.symm.trans ht) ▸ hbrk
  refine (sbrk_followed_iff hs ?_).mpr ?_
  · apply guarded_cons
    · exact ⟨by decide, by decide, hpage⟩
    intro t ht
    refine guarded_cons ?_ fun u hu => guarded_nil
    simp only [SbrkCall.Granted, SbrkCall.newBreak, hbrk t ht]
    exact ⟨by decide, by decide, hpage⟩
  · apply guarded_cons
    · intro page hmissed
      simp [SbrkCall.Missed, touches_iff, BreakState.initial, granules, METALLOC_PAGESIZE,
        METALLOC_PAGESHIFT] at hmissed
      omega
    · intro t ht
      refine guarded_cons ?_ fun u hu => guarded_nil
      intro page hmissed
      simp [SbrkCall.Missed, hbrk t ht, METALLOC_PAGESIZE, METALLOC_PAGESHIFT] at hmissed
      omega

/-- A decrement of two pages registers the pages above the break. -/
theorem sbrk_followed_fails :
    ¬ ∀ (s : BreakState) (calls : List SbrkCall), s.metalloc_sentinel < 2 ^ 47 →
      Guarded BreakState.sbrk (fun s call => call.Granted s) s calls →
      Guarded BreakState.sbrk (fun s call => call.Followed s) s calls := by
  intro hall
  have hs : (BreakState.initial 0x800000).metalloc_sentinel < 2 ^ 47 := by decide
  have hgranted : (SbrkCall.mk (-0x2000) 0x8000).Granted (.initial 0x800000) := by
    simp only [SbrkCall.Granted, SbrkCall.newBreak, BreakState.initial, UserPage]
    decide
  have hrun := hall (.initial 0x800000) [⟨-0x2000, 0x8000⟩] hs
    (guarded_cons hgranted fun t ht => guarded_nil)
  have hfollowed := hrun [] _ _ List.prefix_rfl rfl
  have hmissed : (SbrkCall.mk (-0x2000) 0x8000).Missed 0x800000 0x801 := by
    rw [SbrkCall.Missed, if_neg (by decide)]
    decide
  exact absurd ((BreakState.followed_iff hs hgranted).mp hfollowed 0x801 hmissed) (by decide)

end TypeSan
