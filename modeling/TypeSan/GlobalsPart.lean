import TypeSan.GlobalTypes
import TypeSan.ProcessMemory

/-! A segment with its globals as a part of a process. -/
namespace TypeSan

open Rounding Runs SharedStore WordMemory

/-- The page table and the words, as constructors see them. -/
def ProcessMemory.run (m : ProcessMemory) : GlobalsRun := ⟨m.pageTable, m.mem⟩

namespace GlobalsSegment

variable (segment : GlobalsSegment)

/-- The entries and the words of the segment, and the words of its metadata. -/
def owned : Set Cell
  | .entry page => segment.start / METALLOC_PAGESIZE ≤ page ∧
      page < segment.start / METALLOC_PAGESIZE + segment.size / METALLOC_PAGESIZE
  | .word address =>
    segment.start ≤ address ∧ address < segment.start + segment.size ∨
      segment.metaptr ≤ address ∧ address < segment.metaptr + granules segment.size 3 * 16

/-- The event is one of the segment: the program stores to its globals, and registers no page. -/
def OnGlobals : GlobalsEvent → Prop
  | .construct _ => True
  | .store address _ => segment.start ≤ address ∧ address < segment.start + segment.size
  | .register .. => False

end GlobalsSegment

def globalsPart (segment : GlobalsSegment) (units : List GlobalsUnit) :
    Part ProcessMemory Cell where
  State := Unit
  Event := GlobalsEvent
  step _ m e := (m.run.step e).map fun s => ((), ⟨s.pageTable, s.mem⟩)
  Orderly _ m e := segment.Orderly units m.run e ∧ segment.OnGlobals e
  Inv _ m := segment.RegisteredIn m.run
  owns _ := segment.owned

/-- The stores of an update go to the metadata of the segment. -/
theorem globalStores_bounds {pageTable : PageTable} {addrOf : String → Nat} {R L M : Nat}
    {globals : List GlobalVariable} {GV : GlobalVariable} {stores : List Store}
    (hreg : Registered pageTable R L M 3) (hend : R + L ≤ 2 ^ 48) (h : GV ∈ trackedGlobals globals)
    (hlo : R ≤ GV.address) (hlt : GV.address < R + L) (hhi : GV.address + GV.size ≤ R + L)
    (hstores : GV.update.stores pageTable addrOf GV.address = some stores) :
    ∀ st ∈ stores, M ≤ st.1 ∧ st.1 < M + granules L 3 * 16 := by
  obtain ⟨E, c, htarget, hsize⟩ := exists_target h
  have hslots := slotCount_eq_slots htarget hsize
  have hfilled := filledBytes_eq_size hsize
  rw [MetallocUpdate.stores_eq_slotCount (a := 3) addrOf htarget (by omega) (by decide) (Or.inl rfl)
    (hreg.fields hlo hlt).2, hslots] at hstores
  cases hstores
  have hR : 8 ∣ R := Dvd.dvd.trans (by decide) hreg.start_page
  have hL : 8 ∣ L := Dvd.dvd.trans (by decide) hreg.size_page
  have hle : GV.slots ≤ max 1 (granules GV.size 3) := by
    simp only [GlobalVariable.slots, htarget, Option.elim]
    split <;> omega
  have hfits : (GV.address - R) / 2 ^ 3 + GV.slots ≤ granules L 3 := by
    simp only [granules] at hle ⊢
    omega
  intro st hst
  obtain ⟨i, hi, rfl | rfl⟩ := (mem_slots hreg hlo hlt hfits).mp hst <;> simp only <;> omega

namespace GlobalsSegment

variable {segment : GlobalsSegment} {units : List GlobalsUnit} {m m' : ProcessMemory}
  {e : GlobalsEvent} {u : GlobalsUnit} {GV : GlobalVariable}

/-- A constructor writes to the metadata of the segment only. -/
theorem RegisteredIn.construct_agree (h : segment.RegisteredIn m.run) (hholds : segment.Holds u)
    {s : GlobalsRun} (hs : m.run.step (.construct u) = some s) :
    Agree Cell.read {c | c ∉ segment.owned} m ⟨s.pageTable, s.mem⟩ := by
  obtain ⟨mem, hrun, rfl⟩ := Option.map_eq_some_iff.mp hs
  have hlist (globals : List GlobalVariable) (hsub : globals ⊆ trackedGlobals u.globals)
      (before after : Memory)
      (hrun : initGlobalObject m.pageTable u.addrOf globals before = some after) :
      Agree Cell.read {c | c ∉ segment.owned} ⟨m.pageTable, before⟩ ⟨m.pageTable, after⟩ := by
    induction globals generalizing before with
    | nil =>
      cases hrun
      exact fun _ _ => rfl
    | cons GV globals ih =>
      obtain ⟨hGV, hsub⟩ := List.cons_subset.mp hsub
      obtain ⟨between, hfirst, hrest⟩ := Option.bind_eq_some_iff.mp hrun
      obtain ⟨stores, hstores, rfl⟩ := Option.map_eq_some_iff.mp hfirst
      obtain ⟨hlo, hlt, hhi⟩ := hholds GV hGV
      have hbounds := globalStores_bounds h.entries h.fits hGV hlo hlt hhi hstores
      have hone : Agree Cell.read {c | c ∉ segment.owned} ⟨m.pageTable, before⟩
          ⟨m.pageTable, writes before stores⟩ :=
        agree_writes fun st hst hout => hout (Or.inr (hbounds st hst))
      exact fun c hc => (ih hsub _ hrest c hc).trans (hone c hc)
  exact hlist _ (List.Subset.refl _) _ _ hrun

/-- The segment depends on its entries. -/
theorem RegisteredIn.agree (h : segment.RegisteredIn m.run)
    (hagree : Agree Cell.read segment.owned m m') : segment.RegisteredIn m'.run := by
  refine ⟨⟨h.entries.start_page, h.entries.size_page, h.entries.align_lt, h.entries.meta_ne,
    h.entries.meta_end, fun i hi => ?_⟩, h.start_pos, h.fits⟩
  refine (agree_entry hagree ?_).trans (h.entries.entry i hi)
  exact ⟨Nat.le_add_right _ _, Nat.add_lt_add_left hi _⟩

end GlobalsSegment

section Globals

variable {segment : GlobalsSegment} {units : List GlobalsUnit} {m m' : ProcessMemory}
  {e : GlobalsEvent} {u : GlobalsUnit} {GV : GlobalVariable}

open GlobalsSegment

theorem globalsPart_lawful (hholds : ∀ u ∈ units, segment.Holds u) :
    (globalsPart segment units).Lawful Cell.read where
  step_inv := by
    rintro ⟨⟩ m e ⟨⟩ m' h ⟨hok, -⟩ hs
    obtain ⟨t, ht, heq⟩ := Option.map_eq_some_iff.mp hs
    cases heq
    exact RegisteredIn.step h hok ht
  step_agree := by
    rintro ⟨⟩ m e ⟨⟩ m' h ⟨hok, hon⟩ hs
    obtain ⟨t, ht, heq⟩ := Option.map_eq_some_iff.mp hs
    cases heq
    cases e with
    | construct u =>
      exact fun c hc => RegisteredIn.construct_agree h (hholds u hok) ht c hc.1
    | store address word =>
      cases ht
      exact agree_write (m := m) fun hc => hc.1 (Or.inl hon)
    | register page entry => exact hon.elim
  inv_agree _ m m' h hagree := RegisteredIn.agree h hagree

/-- A global, its bytes with its metadata. -/
def HoldsGlobal (u : GlobalsUnit) (GV : GlobalVariable) (m : ProcessMemory) : Prop :=
  ∀ x, GV.address ≤ x → x < GV.address + GV.size →
    lookupMetadata m.mem m.pageTable x = GV.metadata u.addrOf

variable (hholds : ∀ u ∈ units, segment.Holds u) (hu : u ∈ units)
  (hGV : GV ∈ trackedGlobals u.globals)
include hholds hu hGV

theorem HoldsGlobal.agree (h : HoldsGlobal u GV m) (hreg : segment.RegisteredIn m.run)
    (hagree : Agree Cell.read segment.owned m m') : HoldsGlobal u GV m' := by
  intro x hlo hhi
  obtain ⟨hstart, -, hend⟩ := hholds u hu GV hGV
  obtain ⟨hfirst, hlast⟩ : segment.metaptr ≤ metadataPtr m.pageTable x ∧
      metadataPtr m.pageTable x + 16 ≤ segment.metaptr + granules segment.size 3 * 16 :=
    hreg.slot (by omega) (by omega)
  have hentry : x / METALLOC_PAGESIZE <
      segment.start / METALLOC_PAGESIZE + segment.size / METALLOC_PAGESIZE := by
    have hpage := hreg.entries.start_page
    have hsize := hreg.entries.size_page
    simp only [METALLOC_PAGESIZE, METALLOC_PAGESHIFT] at *
    omega
  rw [← h x hlo hhi]
  refine lookup_of_agree hagree ⟨Nat.div_le_div_right (by omega), hentry⟩
    (Or.inr ⟨hfirst, Nat.lt_of_lt_of_le (Nat.lt_add_of_pos_right (by decide)) hlast⟩)
    (Or.inr ⟨Nat.le_add_right_of_le hfirst, Nat.lt_of_lt_of_le ?_ hlast⟩)
  exact Nat.add_lt_add_left (by decide) _

theorem HoldsGlobal.step (h : HoldsGlobal u GV m) (hreg : segment.RegisteredIn m.run)
    (hundisturbed : u.Undisturbed units GV) (hok : segment.Orderly units m.run e)
    (hs : (globalsPart segment units).step () m e = some ((), m')) : HoldsGlobal u GV m' := by
  obtain ⟨t, ht, heq⟩ := Option.map_eq_some_iff.mp hs
  cases heq
  exact fun x hlo hhi => hreg.lookup_step hholds hu hGV hundisturbed hlo hhi hok ht (h x hlo hhi)

/-- The constructor of its module gives a global its metadata. -/
theorem HoldsGlobal.of_construct (hreg : segment.RegisteredIn m.run)
    (hundisturbed : u.Undisturbed units GV)
    (hs : (globalsPart segment units).step () m (.construct u) = some ((), m')) :
    HoldsGlobal u GV m' := by
  obtain ⟨t, ht, heq⟩ := Option.map_eq_some_iff.mp hs
  cases heq
  exact fun x hlo hhi =>
    hreg.construct hholds hu hGV hundisturbed hlo hhi hu ht (Or.inl rfl)

end Globals

end TypeSan
