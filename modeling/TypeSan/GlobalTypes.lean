import TypeSan.GlobalMetadata
import TypeSan.Library.Runs
import TypeSan.ObjectChecks

/-! The metadata of a program's globals while constructors run and the program goes on, and the casts
of pointers into a global. -/
namespace TypeSan

open LastWrite Rounding Runs WordMemory

/-- A module with globals in the segment, and where its tables are. -/
structure GlobalsUnit where
  globals : List GlobalVariable
  addrOf : String → Nat

/-- The page table, and the words in memory. -/
structure GlobalsRun where
  pageTable : PageTable
  mem : Memory

/-- What happens next: the constructor of a module, and what else stores a word or registers a
page. -/
inductive GlobalsEvent where
  | construct (u : GlobalsUnit)
  | store (address word : Nat)
  | register (page entry : Nat)

/-- A segment with globals, and its metadata block. -/
structure GlobalsSegment where
  start : Nat
  size : Nat
  metaptr : Nat

namespace GlobalsRun

def step (s : GlobalsRun) : GlobalsEvent → Option GlobalsRun
  | .construct u =>
    (initGlobalObject s.pageTable u.addrOf (trackedGlobals u.globals) s.mem).map fun mem =>
      { s with mem }
  | .store address word => some { s with mem := write s.mem (address, word) }
  | .register page entry => some { s with pageTable := Function.update s.pageTable page entry }

end GlobalsRun

namespace GlobalsSegment

variable (segment : GlobalsSegment)

/-- The pages of the segment refer to its metadata, as `set_metapagetable_entries` leaves them. -/
structure RegisteredIn (s : GlobalsRun) : Prop where
  entries : Registered s.pageTable segment.start segment.size segment.metaptr 3
  start_pos : 0 < segment.start
  fits : segment.start + segment.size ≤ 2 ^ 48

/-- The globals of the module lie in the segment. -/
def Holds (u : GlobalsUnit) : Prop :=
  ∀ GV ∈ trackedGlobals u.globals, segment.start ≤ GV.address ∧
    GV.address < segment.start + segment.size ∧
    GV.address + GV.size ≤ segment.start + segment.size

/-- Constructors are those of the program, other stores keep off the segment's metadata, and no page
of the segment is registered again. -/
def Orderly (units : List GlobalsUnit) (_ : GlobalsRun) : GlobalsEvent → Prop
  | .construct u => u ∈ units
  | .store address _ =>
    address < segment.metaptr ∨ segment.metaptr + granules segment.size 3 * 16 ≤ address
  | .register page _ => page < segment.start / METALLOC_PAGESIZE ∨
      segment.start / METALLOC_PAGESIZE + segment.size / METALLOC_PAGESIZE ≤ page

end GlobalsSegment

/-- The global's struct has a name, its last byte is in a granule that its update fills, and no update
of any module fills a granule that holds one of its bytes, but with the same pair. -/
structure GlobalsUnit.Undisturbed (units : List GlobalsUnit) (u : GlobalsUnit)
    (GV : GlobalVariable) : Prop where
  identified : ∀ E c, GV.update.target = some (E, c) → E.name ≠ none
  covered : GV.address % 8 + GV.size ≤ 8 * granules GV.size 3
  alone : ∀ u' ∈ units, ∀ GV' ∈ trackedGlobals u'.globals, ∀ x, GV.address ≤ x →
    x < GV.address + GV.size → GV'.Fills x → GV'.entry u'.addrOf = GV.entry u.addrOf

namespace GlobalsSegment

variable {segment : GlobalsSegment} {units : List GlobalsUnit} {u : GlobalsUnit}
  {GV : GlobalVariable} {s t s' : GlobalsRun} {e : GlobalsEvent} {events : List GlobalsEvent}
  {x : Nat}

/-- The words that a lookup in the segment reads are in its metadata. -/
theorem RegisteredIn.slot (h : segment.RegisteredIn s) (hlo : segment.start ≤ x)
    (hhi : x < segment.start + segment.size) :
    segment.metaptr ≤ metadataPtr s.pageTable x ∧
      metadataPtr s.pageTable x + 16 ≤ segment.metaptr + granules segment.size 3 * 16 := by
  rw [h.entries.metadataPtr_eq hlo hhi]
  have hgranule : (x - segment.start) / 2 ^ 3 < granules segment.size 3 :=
    div_lt_granules (by omega)
  omega

theorem RegisteredIn.step (h : segment.RegisteredIn s) (hok : segment.Orderly units s e)
    (hs : s.step e = some t) : segment.RegisteredIn t := by
  cases e with
  | construct u =>
    obtain ⟨mem, -, rfl⟩ := Option.map_eq_some_iff.mp hs
    exact ⟨h.entries, h.start_pos, h.fits⟩
  | store address word =>
    cases hs
    exact ⟨h.entries, h.start_pos, h.fits⟩
  | register page entry =>
    cases hs
    refine ⟨⟨h.entries.start_page, h.entries.size_page, h.entries.align_lt, h.entries.meta_ne,
      h.entries.meta_end, fun i hi => ?_⟩, h.start_pos, h.fits⟩
    have hpage : page < segment.start / METALLOC_PAGESIZE ∨
        segment.start / METALLOC_PAGESIZE + segment.size / METALLOC_PAGESIZE ≤ page := hok
    have hne : segment.start / METALLOC_PAGESIZE + i ≠ page := by omega
    exact (Function.update_of_ne hne _ _).trans (h.entries.entry i hi)

/-- What a constructor leaves for an address is what the last update of its granule writes. -/
theorem RegisteredIn.lookup_construct (h : segment.RegisteredIn s) (hholds : segment.Holds u)
    (hs : s.step (.construct u) = some t) (hlo : segment.start ≤ x)
    (hhi : x < segment.start + segment.size) :
    lookupMetadata t.mem t.pageTable x =
      afterWrites (fun GV : GlobalVariable => GV.Fills x)
        (fun GV => (GV.entry u.addrOf).getD (0, 0)) (trackedGlobals u.globals)
        (lookupMetadata s.mem s.pageTable x) := by
  obtain ⟨mem, hrun, rfl⟩ := Option.map_eq_some_iff.mp hs
  obtain ⟨mem', hrun', hlookup⟩ := initGlobalObject_eq u.addrOf h.entries h.fits hholds
    (List.Subset.refl (trackedGlobals u.globals)) s.mem
  obtain rfl := Option.some.inj (hrun.symm.trans hrun')
  exact hlookup x hlo hhi

/-- A store off the metadata, and a registration of another page, change nothing for the segment. -/
theorem RegisteredIn.lookup_store (h : segment.RegisteredIn s) {address word : Nat}
    (hok : segment.Orderly units s (.store address word)) (hlo : segment.start ≤ x)
    (hhi : x < segment.start + segment.size) :
    lookupMetadata (write s.mem (address, word)) s.pageTable x =
      lookupMetadata s.mem s.pageTable x := by
  obtain ⟨hfirst, hlast⟩ := h.slot hlo hhi
  have hoff : address < segment.metaptr ∨
      segment.metaptr + granules segment.size 3 * 16 ≤ address := hok
  have hbase : metadataPtr s.pageTable x ≠ address := by omega
  have htype : metadataPtr s.pageTable x + 8 ≠ address := by omega
  simp only [lookupMetadata, write_of_ne (s := (address, word)) hbase,
    write_of_ne (s := (address, word)) htype]

section Global

variable (hholds : ∀ u ∈ units, segment.Holds u) (hu : u ∈ units)
  (hGV : GV ∈ trackedGlobals u.globals) (hundisturbed : u.Undisturbed units GV)
  (hlo : GV.address ≤ x) (hhi : x < GV.address + GV.size)
include hholds hu hGV hundisturbed hlo hhi

/-- After a constructor, an undisturbed global has its metadata if it is one of the module's, or if
it had it before. -/
theorem RegisteredIn.construct (h : segment.RegisteredIn s) {u' : GlobalsUnit} (hu' : u' ∈ units)
    (hs : s.step (.construct u') = some t)
    (hhas : u' = u ∨ lookupMetadata s.mem s.pageTable x = GV.metadata u.addrOf) :
    lookupMetadata t.mem t.pageTable x = GV.metadata u.addrOf := by
  obtain ⟨hstart, -, hend⟩ := hholds u hu GV hGV
  obtain ⟨data, hmetadata⟩ := exists_metadata u.addrOf hGV
  have hentry : GV.entry u.addrOf = GV.metadata u.addrOf :=
    entry_eq_metadata hundisturbed.identified
  rw [h.lookup_construct (hholds u' hu') hs (by omega) (by omega), hmetadata]
  refine afterWrites_of_agree (fun GV' hGV' hfills => ?_) ?_
  · rw [hundisturbed.alone u' hu' GV' hGV' x hlo hhi hfills, hentry, hmetadata]
    rfl
  · rcases hhas with rfl | hlookup
    · exact Or.inl ⟨GV, hGV, fills_of_covered hGV hundisturbed.covered hlo hhi⟩
    · exact Or.inr (hlookup.trans hmetadata)

/-- No step changes what an undisturbed global has. -/
theorem RegisteredIn.lookup_step (h : segment.RegisteredIn s) (hok : segment.Orderly units s e)
    (hs : s.step e = some t)
    (hlookup : lookupMetadata s.mem s.pageTable x = GV.metadata u.addrOf) :
    lookupMetadata t.mem t.pageTable x = GV.metadata u.addrOf := by
  obtain ⟨hstart, -, hend⟩ := hholds u hu GV hGV
  have hreg := h.step hok hs
  cases e with
  | construct u' => exact h.construct hholds hu hGV hundisturbed hlo hhi hok hs (Or.inr hlookup)
  | store address word =>
    cases hs
    rw [h.lookup_store hok (by omega) (by omega), hlookup]
  | register page entry =>
    cases hs
    have hslot : metadataPtr (Function.update s.pageTable page entry) x =
        metadataPtr s.pageTable x := by
      rw [h.entries.metadataPtr_eq (by omega) (by omega)]
      exact hreg.entries.metadataPtr_eq (by omega) (by omega)
    rw [← hlookup]
    simp only [lookupMetadata, hslot]

/-- Once the constructor of its module has run, each byte of an undisturbed global has its metadata,
whatever constructors run before and after it, and whatever else the program stores. -/
theorem lookup_of_constructed (h : segment.RegisteredIn s)
    (hok : Guarded GlobalsRun.step (segment.Orderly units) s events)
    (hs : exec GlobalsRun.step s events = some s') (hconstructed : .construct u ∈ events) :
    segment.RegisteredIn s' ∧ lookupMetadata s'.mem s'.pageTable x = GV.metadata u.addrOf := by
  obtain ⟨before, after, rfl⟩ := List.append_of_mem hconstructed
  rw [exec_append] at hs
  obtain ⟨s₁, hs₁, hs⟩ := Option.bind_eq_some_iff.mp hs
  rw [exec_cons] at hs
  obtain ⟨s₂, hs₂, hs⟩ := Option.bind_eq_some_iff.mp hs
  have hbefore := hok.mono (List.prefix_append before _)
  have hreg : segment.RegisteredIn s₁ :=
    exec_invariant h (fun t e w ht hok hstep => ht.step hok hstep) hbefore hs₁
  have hrest := hok.drop hs₁
  have horderly : segment.Orderly units s₁ (.construct u) := hu
  refine exec_invariant (I := fun t => segment.RegisteredIn t ∧
    lookupMetadata t.mem t.pageTable x = GV.metadata u.addrOf) ⟨hreg.step horderly hs₂, ?_⟩ ?_
    (hrest.tail hs₂) hs
  · exact hreg.construct hholds hu hGV hundisturbed hlo hhi hu hs₂ (Or.inl rfl)
  · rintro t e w ⟨ht, hlookup⟩ hok hstep
    exact ⟨ht.step hok hstep,
      ht.lookup_step hholds hu hGV hundisturbed hlo hhi hok hstep hlookup⟩

end Global

end GlobalsSegment

namespace GlobalArray

open FirstArray SecondElement

def array : GlobalVariable := ⟨"array", T.ty, 0x601008⟩

def counter : GlobalVariable := ⟨"counter", .scalar 4 2, 0x601000⟩

def arrayUnit : GlobalsUnit := ⟨[counter, array], addrOf⟩

def segment : GlobalsSegment := ⟨0x601000, 0x1000, 0x7f0000000000⟩

def start : GlobalsRun := ⟨setEntries (fun _ => 0) 0x601 0x7f0000000000 3 1, fun _ => none⟩

def events : List GlobalsEvent := [.construct arrayUnit, .register 0x700 7, .store 0x8000 1]

theorem registeredIn : segment.RegisteredIn start where
  entries := @mappedBelow_of_set (fun _ => 0) _ _ _ _ _ _ (by decide) (by decide) (by decide)
    (by decide) rfl
  start_pos := by decide
  fits := by decide

theorem undisturbed : arrayUnit.Undisturbed [arrayUnit] array := by
  have htarget : array.update.target = some (T, 1) := by decide
  refine ⟨fun E c h => ?_, by decide, fun u hu GV hGV x hlo hhi hfills => ?_⟩
  · cases htarget.symm.trans h
    decide
  · obtain rfl := List.mem_singleton.mp hu
    have htracked : trackedGlobals arrayUnit.globals = [array] := by decide
    rw [htracked] at hGV
    obtain rfl := List.mem_singleton.mp hGV
    rfl

end GlobalArray

end TypeSan
