import TypeSan.Library.PageMap
import TypeSan.Library.SharedStore
import TypeSan.UpdateMetalloc

/-! The memory that heap, stacks and globals share: the page table and the words. -/
namespace TypeSan

open PageMap SharedStore WordMemory

structure ProcessMemory where
  pageTable : PageTable
  mem : Memory

/-- An entry of the page table, or a word. -/
inductive Cell where
  | entry (page : Nat)
  | word (address : Nat)
  deriving DecidableEq

namespace Cell

/-- The page that the cell is about. -/
def page : Cell → Nat
  | .entry page => page
  | .word address => address / METALLOC_PAGESIZE

def read (m : ProcessMemory) : Cell → Option Nat
  | .entry page => some (m.pageTable page)
  | .word address => m.mem address

end Cell

section Agree

variable {m m' : ProcessMemory} {cells : Set Cell}

theorem agree_entry (h : Agree Cell.read cells m m') {page : Nat} (hpage : .entry page ∈ cells) :
    m'.pageTable page = m.pageTable page :=
  Option.some.inj (h _ hpage)

theorem agree_word (h : Agree Cell.read cells m m') {address : Nat}
    (haddress : .word address ∈ cells) : m'.mem address = m.mem address :=
  h _ haddress

/-- Stores that keep off the cells leave them as they are. -/
theorem agree_writes {stores : List Store} (h : ∀ st ∈ stores, .word st.1 ∉ cells) :
    Agree Cell.read cells m { m with mem := writes m.mem stores } := by
  rintro (page | address) hc
  · rfl
  · exact writes_of_forall_ne fun st hst heq => h st hst (heq ▸ hc)

theorem agree_write {st : Store} (h : .word st.1 ∉ cells) :
    Agree Cell.read cells m { m with mem := write m.mem st } := by
  have hstores : Agree Cell.read cells m { m with mem := writes m.mem [st] } :=
    agree_writes (by simpa using h)
  simpa using hstores

/-- A lookup depends on the entry of the page, and on the two words of the slot. -/
theorem lookup_of_agree {x : Nat} (h : Agree Cell.read cells m m')
    (hentry : .entry (x / METALLOC_PAGESIZE) ∈ cells)
    (hbase : .word (metadataPtr m.pageTable x) ∈ cells)
    (htype : .word (metadataPtr m.pageTable x + 8) ∈ cells) :
    lookupMetadata m'.mem m'.pageTable x = lookupMetadata m.mem m.pageTable x := by
  have hslot : metadataPtr m'.pageTable x = metadataPtr m.pageTable x := by
    simp only [metadataPtr, agree_entry h hentry]
  simp only [lookupMetadata, hslot, agree_word h hbase, agree_word h htype]

end Agree

/-! The rest of the process: other mappings, what is on them, and the entries that the mapping hooks
give them. -/

inductive OtherEvent where
  | map (first count : Nat)
  | unmap (first count : Nat)
  | store (address word : Nat)
  | register (page entry : Nat)

/-- It stores and registers where it has pages. -/
def otherPart : Part ProcessMemory Cell where
  State := Pages Unit
  Event := OtherEvent
  step s m
    | .map first count => (PageMap.map s first count ()).map fun s => (s, m)
    | .unmap first count => some (PageMap.unmap s first count, m)
    | .store address word => some (s, { m with mem := write m.mem (address, word) })
    | .register page entry =>
      some (s, { m with pageTable := Function.update m.pageTable page entry })
  Orderly s _
    | .map .. | .unmap .. => True
    | .store address _ => (s (address / METALLOC_PAGESIZE)).isSome
    | .register page _ => (s page).isSome
  Inv _ _ := True
  owns s := {c | (s c.page).isSome}

theorem otherPart_lawful : otherPart.Lawful Cell.read where
  step_inv _ _ _ _ _ _ _ _ := trivial
  step_agree := by
    intro s m e s' m' _ hok hs
    cases e with
    | map first count =>
      obtain ⟨t, -, heq⟩ := Option.map_eq_some_iff.mp hs
      cases heq
      exact fun _ _ => rfl
    | unmap first count =>
      cases hs
      exact fun _ _ => rfl
    | store address word =>
      cases hs
      exact agree_write fun hc => hc.1 hok
    | register page entry =>
      cases hs
      rintro (page' | address) hc
      · have hne : page' ≠ page := by
          rintro rfl
          exact hc.1 hok
        exact congrArg some (Function.update_of_ne hne _ _)
      · rfl
  inv_agree _ _ _ _ _ := trivial

end TypeSan
