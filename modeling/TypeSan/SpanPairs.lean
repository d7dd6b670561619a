import Mathlib.Data.List.Pairwise
import TypeSan.Library.Checked
import TypeSan.SpanPaths

/-! The spans in use come in pairs, of objects and their metadata, and every call of the page heap
keeps the pairs. -/
namespace TypeSan

open Checked PageMap Rounding

/-- The granularity of the metadata of a span. -/
def Gperftools.useAlignment (G : Gperftools) : SpanUse → Nat
  | .small objectSize => G.alignmentBitsForSize objectSize
  | .large => kPageShift
  | .metadata => 0

namespace HeapSpan

variable {a b : HeapSpan} {page : Nat}

theorem Apart.symm (h : a.Apart b) : b.Apart a := Or.symm h

instance : Std.Symm HeapSpan.Apart := ⟨fun _ _ => Apart.symm⟩

theorem Apart.ne (h : a.Apart b) (ha : a.Fits) : a ≠ b := by
  rintro rfl
  have := ha.2.1
  simp only [Apart] at h
  omega

theorem Apart.not_covers (h : a.Apart b) (ha : a.Covers page) : ¬ b.Covers page := by
  simp only [Apart, Covers, InRange] at *
  omega

/-- Spans that start at the same page are not apart. -/
theorem Apart.start_ne (h : a.Apart b) (ha : a.Fits) (hb : b.Fits) : a.start ≠ b.start := by
  have := ha.2.1
  have := hb.2.1
  simp only [Apart] at h
  omega

end HeapSpan

theorem hookWords_of_forall_ne {pageTable : PageTable} {words : List (Nat × Nat)} {page : Nat}
    (h : ∀ word ∈ words, word.1 ≠ page) : hookWords pageTable words page = pageTable page := by
  induction words generalizing pageTable with
  | nil => rfl
  | cons word rest ih =>
    obtain ⟨p, entry⟩ := word
    rw [hookWords, ih fun word hword => h word (List.mem_cons_of_mem _ hword),
      Function.update_of_ne (h (p, entry) List.mem_cons_self).symm]

section Attached

variable (G : Gperftools) {pageTable pageTable' : PageTable} {span metaspan : HeapSpan} {page : Nat}

/-- The pages of the span are registered with the metadata span, which has a slot for each granule. -/
structure Gperftools.Attached (pageTable : PageTable) (span metaspan : HeapSpan) : Prop where
  is_object : span.use ≠ .metadata
  is_metadata : metaspan.use = .metadata
  registered : Registered pageTable (span.start * kPageSize) (span.length * kPageSize)
    (metaspan.start * kPageSize) (G.useAlignment span.use)
  room : granules (span.length * kPageSize) (G.useAlignment span.use) * 16 ≤
    metaspan.length * kPageSize

variable {G}

theorem Gperftools.Attached.frame (h : G.Attached pageTable span metaspan)
    (htable : ∀ page, span.Covers page → pageTable' page = pageTable page) :
    G.Attached pageTable' span metaspan where
  is_object := h.is_object
  is_metadata := h.is_metadata
  registered := by
    obtain ⟨h₁, h₂, h₃, h₄, h₅, h₆⟩ := h.registered
    refine ⟨h₁, h₂, h₃, h₄, h₅, ?_⟩
    intro i hi
    rw [htable _ ?_]
    · exact h₆ i hi
    · simp only [HeapSpan.Covers, InRange, kPageSize, kPageShift, METALLOC_PAGESIZE,
        METALLOC_PAGESHIFT] at *
      omega
  room := h.room

/-- The entry of a page: the slot of its first byte. -/
theorem Gperftools.Attached.entry (h : G.Attached pageTable span metaspan)
    (hpage : span.Covers page) :
    pageTable page >>> 8 = metaspan.start * kPageSize +
        (page - 2 * span.start) * METALLOC_PAGESIZE / 2 ^ G.useAlignment span.use * 16 ∧
      pageTable page &&& 0xFF = G.useAlignment span.use := by
  have hfields := h.registered.fields (x := page * METALLOC_PAGESIZE)
    (by
      simp only [HeapSpan.Covers, InRange, kPageSize, kPageShift, METALLOC_PAGESIZE,
        METALLOC_PAGESHIFT] at *
      omega)
    (by
      simp only [HeapSpan.Covers, InRange, kPageSize, kPageShift, METALLOC_PAGESIZE,
        METALLOC_PAGESHIFT] at *
      omega)
  have hoffset : (page * METALLOC_PAGESIZE - span.start * kPageSize) / METALLOC_PAGESIZE =
      page - 2 * span.start := by
    simp only [kPageSize, kPageShift, METALLOC_PAGESIZE, METALLOC_PAGESHIFT]
    omega
  rwa [Nat.mul_div_cancel _ (by decide), hoffset] at hfields

/-- The first entry is the start of the metadata span. -/
theorem Gperftools.Attached.first_entry (h : G.Attached pageTable span metaspan)
    (hfits : span.Fits) : pageTable (2 * span.start) >>> 8 = metaspan.start * kPageSize := by
  have hpos := hfits.2.1
  have hcovers : span.Covers (2 * span.start) := by
    simp only [HeapSpan.Covers, InRange]
    omega
  rw [(h.entry hcovers).1, Nat.sub_self, Nat.zero_mul, Nat.zero_div, Nat.zero_mul, Nat.add_zero]

end Attached

/-- What holds of the page heap between its calls: the spans in use are those that an operation still
holds, and pairs of a span of objects and its metadata span. -/
structure Gperftools.Paired (G : Gperftools) (s : PageHeap) (pending : List HeapSpan)
    (pairs : List (HeapSpan × HeapSpan)) : Prop where
  perm : s.spans.Perm (pending ++ pairs.flatMap fun p => [p.1, p.2])
  apart : s.spans.Pairwise HeapSpan.Apart
  fits : ∀ span ∈ s.spans, span.Fits
  attached : ∀ p ∈ pairs, G.Attached s.pageTable p.1 p.2

section Paired

variable {G : Gperftools} {s s' : PageHeap} {pending : List HeapSpan}
  {pairs : List (HeapSpan × HeapSpan)} {span metaspan other : HeapSpan} {p : HeapSpan × HeapSpan}

theorem Gperftools.Paired.mem_pending (h : G.Paired s (span :: pending) pairs) :
    span ∈ s.spans := h.perm.mem_iff.mpr (by simp)

theorem Gperftools.Paired.mem_pair (h : G.Paired s pending pairs) (hp : p ∈ pairs) :
    p.1 ∈ s.spans ∧ p.2 ∈ s.spans := by
  have hmem (a : HeapSpan) (ha : a = p.1 ∨ a = p.2) : a ∈ s.spans := by
    refine h.perm.mem_iff.mpr (List.mem_append_right _ (List.mem_flatMap.mpr ⟨p, hp, ?_⟩))
    simpa using ha
  exact ⟨hmem _ (Or.inl rfl), hmem _ (Or.inr rfl)⟩

theorem Gperftools.Paired.apart_of_ne (h : G.Paired s pending pairs) (ha : span ∈ s.spans)
    (hb : other ∈ s.spans) (hne : span ≠ other) : span.Apart other :=
  h.apart.forall ha hb hne

/-- A span in use is known by its first page. -/
theorem Gperftools.Paired.eq_of_start (h : G.Paired s pending pairs) (ha : span ∈ s.spans)
    (hb : other ∈ s.spans) (hstart : span.start = other.start) : span = other := by
  by_contra hne
  exact (h.apart_of_ne ha hb hne).start_ne (h.fits _ ha) (h.fits _ hb) hstart

theorem Gperftools.Paired.nodup (h : G.Paired s pending pairs) : s.spans.Nodup :=
  h.apart.imp_of_mem fun ha _ hab => hab.ne (h.fits _ ha)

theorem Gperftools.Paired.getDescriptor (h : G.Paired s pending pairs) (ha : span ∈ s.spans) :
    s.getDescriptor span.start = some span := by
  obtain ⟨found, hfound⟩ := Option.isSome_iff_exists.mp
    (List.find?_isSome (p := fun a : HeapSpan => decide (a.start = span.start)).mpr
      ⟨span, ha, by simp⟩)
  have hstart : found.start = span.start := by simpa using List.find?_some hfound
  rw [PageHeap.getDescriptor, hfound, h.eq_of_start (List.mem_of_find?_eq_some hfound) ha hstart]

/-! The calls of the page heap. -/

theorem Gperftools.Paired.new (h : G.Paired s pending pairs) (length : Nat) (use : SpanUse)
    (answer : Option Grant) :
    Meets (· = .undocumented) (fun r => (r = (s, none) ∧ answer = none) ∨
      ∃ span, r.2 = some span ∧ span.use = use ∧ length ≤ span.length ∧
        G.Paired r.1 (span :: pending) pairs) (s.new length use answer) := by
  unfold PageHeap.new
  cases answer with
  | none => exact Or.inl ⟨rfl, rfl⟩
  | some g =>
    simp only
    split
    · rename_i hdoc
      obtain ⟨hlength, hfits, hapart, hhooks⟩ := hdoc
      refine Or.inr ⟨_, rfl, rfl, hlength, ?_, ?_, ?_, fun p hp => ?_⟩
      · exact h.perm.cons _
      · exact List.pairwise_cons.mpr ⟨hapart, h.apart⟩
      · exact List.forall_mem_cons.mpr ⟨hfits, h.fits⟩
      · refine (h.attached p hp).frame fun page hpage =>
          hookWords_of_forall_ne fun word hword heq => ?_
        exact hhooks word hword _ (h.mem_pair hp).1 (heq ▸ hpage)
    · rfl

theorem Gperftools.Paired.delete (h : G.Paired s (span :: pending) pairs) :
    Meets (fun _ => False) (fun s' => s'.pageTable = s.pageTable ∧
      s'.spans = s.spans.erase span ∧ G.Paired s' pending pairs) (s.delete (some span)) := by
  have hmem := h.mem_pending
  simp only [PageHeap.delete, if_pos hmem, meets_ok, true_and]
  refine ⟨?_, h.apart.sublist List.erase_sublist, fun a ha => h.fits a (List.mem_of_mem_erase ha),
    h.attached⟩
  have := h.perm.erase span
  simpa using this

theorem Gperftools.Paired.split {n : Nat} (h : G.Paired s (span :: pending) pairs) (hn : 0 < n)
    (hlt : n < span.length) :
    Meets (fun _ => False) (fun r => r.2.1.length = n ∧ r.2.2.length = span.length - n ∧
      r.2.1.use = span.use ∧ r.2.2.use = span.use ∧
      G.Paired r.1 (r.2.1 :: r.2.2 :: pending) pairs) (s.split span n) := by
  have hmem := h.mem_pending
  have hfits := h.fits _ hmem
  have hrest (other : HeapSpan) (ho : other ∈ s.spans.erase span) :
      other ∈ s.spans ∧ span.Apart other := by
    have ho' := h.nodup.mem_erase_iff.mp ho
    exact ⟨ho'.2, h.apart_of_ne hmem ho'.2 (Ne.symm ho'.1)⟩
  rw [PageHeap.split, if_pos ⟨hmem, hn, hlt⟩, meets_ok]
  refine ⟨rfl, rfl, rfl, rfl, ?_, ?_, ?_, h.attached⟩
  · have := (h.perm.erase span).cons { span with start := span.start + n, length := span.length - n }
    simpa using this.cons { span with length := n }
  · refine List.pairwise_cons.mpr ⟨?_, List.pairwise_cons.mpr
      ⟨fun other ho => ?_, h.apart.sublist List.erase_sublist⟩⟩
    · refine List.forall_mem_cons.mpr ⟨Or.inl (Nat.le_refl _), ?_⟩
      intro other ho
      have := (hrest other ho).2
      simp only [HeapSpan.Apart] at *
      omega
    · have := (hrest other ho).2
      simp only [HeapSpan.Apart] at *
      omega
  · simp only [HeapSpan.Fits, List.forall_mem_cons, kPageSize, kPageShift] at *
    refine ⟨by omega, by omega, fun other ho => h.fits other (hrest other ho).1⟩

/-- Whole pages are registered. -/
theorem PageHeap.setEntries_pages (s : PageHeap) (start length metaptr alignment : Nat) :
    s.setEntries (start <<< kPageShift) (length <<< kPageShift) metaptr alignment =
      .ok { s with
        pageTable := TypeSan.setEntries s.pageTable (2 * start) metaptr alignment (2 * length) } := by
  have hsize : length * 2 ^ kPageShift / METALLOC_PAGESIZE = 2 * length := by
    simp only [kPageShift, METALLOC_PAGESIZE, METALLOC_PAGESHIFT]
    omega
  have hstart : start * 2 ^ kPageShift / METALLOC_PAGESIZE = 2 * start := by
    simp only [kPageShift, METALLOC_PAGESIZE, METALLOC_PAGESHIFT]
    omega
  have hdvd : METALLOC_PAGESIZE ∣ length * 2 ^ kPageShift := by
    simp only [kPageShift, METALLOC_PAGESIZE, METALLOC_PAGESHIFT]
    omega
  simp only [PageHeap.setEntries, Nat.shiftLeft_eq, setMetapagetableEntries_of_dvd _ _ _ _ hdvd,
    hsize, hstart]

theorem HeapSpan.covers_iff_page {page : Nat} :
    span.Covers page ↔ 2 * span.start ≤ page ∧ page < 2 * span.start + 2 * span.length := by
  simp only [HeapSpan.Covers, InRange]
  omega

/-- Registration attaches a metadata span that is long enough. -/
theorem attached_setEntries (pageTable : PageTable) (huse : span.use ≠ .metadata)
    (hmeta : metaspan.use = .metadata) (hlt : G.useAlignment span.use < 128)
    (hfits : metaspan.Fits)
    (hlength : HeapState.metaspanLength span.length (G.useAlignment span.use) ≤ metaspan.length) :
    G.Attached (setEntries pageTable (2 * span.start) (metaspan.start * kPageSize)
      (G.useAlignment span.use) (2 * span.length)) span metaspan := by
  obtain ⟨hpos, -, hend⟩ := hfits
  have hroom : granules (span.length * kPageSize) (G.useAlignment span.use) * 16 ≤
      metaspan.length * kPageSize :=
    Nat.le_trans (HeapState.metaspan_room _ _) (Nat.mul_le_mul_right kPageSize hlength)
  have hstart : span.start * kPageSize / METALLOC_PAGESIZE = 2 * span.start := by
    simp only [kPageSize, kPageShift, METALLOC_PAGESIZE, METALLOC_PAGESHIFT]
    omega
  have hsize : span.length * kPageSize / METALLOC_PAGESIZE = 2 * span.length := by
    simp only [kPageSize, kPageShift, METALLOC_PAGESIZE, METALLOC_PAGESHIFT]
    omega
  have hpage : METALLOC_PAGESIZE ∣ kPageSize := Dvd.intro_left _ kPageSize_eq.symm
  refine ⟨huse, hmeta, ⟨hpage.mul_left _, hpage.mul_left _, hlt, ?_, ?_, fun i hi => ?_⟩, hroom⟩
  · exact Nat.mul_ne_zero (Nat.pos_iff_ne_zero.mp hpos) (by decide)
  · rw [Nat.add_mul] at hend
    omega
  · simp only [hsize, hstart] at hi ⊢
    exact setEntries_in hi

/-- A span that an operation holds is in no pair. -/
theorem Gperftools.Paired.pending_ne (h : G.Paired s pending pairs) (hspan : span ∈ pending)
    (hp : p ∈ pairs) : span ≠ p.1 := by
  have hnodup := h.perm.nodup_iff.mp h.nodup
  have hmem : p.1 ∈ pairs.flatMap fun p => [p.1, p.2] := List.mem_flatMap.mpr ⟨p, hp, by simp⟩
  exact (List.nodup_append.mp hnodup).2.2 span hspan p.1 hmem

/-- The entries of a span that an operation holds are its own. -/
theorem Gperftools.Paired.set_table {pageTable : PageTable} (h : G.Paired s pending pairs)
    (hspan : span ∈ pending)
    (htable : ∀ page, ¬ span.Covers page → pageTable page = s.pageTable page) :
    G.Paired { s with pageTable } pending pairs := by
  refine ⟨h.perm, h.apart, h.fits, fun p hp => (h.attached p hp).frame fun page hpage => ?_⟩
  have hmem : span ∈ s.spans := h.perm.mem_iff.mpr (List.mem_append_left _ hspan)
  have hapart := h.apart_of_ne hmem (h.mem_pair hp).1 (h.pending_ne hspan hp)
  exact htable page fun hin => hapart.not_covers hin hpage

theorem setEntries_of_not_covers {pageTable : PageTable} {page : Nat} (metaptr alignment : Nat)
    (h : ¬ span.Covers page) :
    setEntries pageTable (2 * span.start) metaptr alignment (2 * span.length) page =
      pageTable page := by
  rw [setEntries_apply, if_neg]
  rwa [← HeapSpan.covers_iff_page]

/-- A span and its metadata span become a pair. -/
theorem Gperftools.Paired.pair (h : G.Paired s (metaspan :: span :: pending) pairs)
    (hattached : G.Attached s.pageTable span metaspan) :
    G.Paired s pending ((span, metaspan) :: pairs) where
  perm := by
    refine h.perm.trans (List.perm_iff_count.mpr fun a => ?_)
    simp only [List.count_append, List.count_cons, List.flatMap_cons, List.count_nil]
    omega
  apart := h.apart
  fits := h.fits
  attached := List.forall_mem_cons.mpr ⟨hattached, h.attached⟩

/-- An operation takes hold of a pair. -/
theorem Gperftools.Paired.unpair (h : G.Paired s pending pairs) (hp : (span, metaspan) ∈ pairs) :
    G.Paired s (metaspan :: span :: pending) (pairs.erase (span, metaspan)) where
  perm := by
    have hperm := (List.perm_cons_erase hp).flatMap_right fun p => [p.1, p.2]
    refine h.perm.trans (List.perm_iff_count.mpr fun a => ?_)
    have := List.perm_iff_count.mp hperm a
    simp only [List.count_append, List.count_cons, List.flatMap_cons, List.count_nil] at this ⊢
    omega
  apart := h.apart
  fits := h.fits
  attached p hp' := h.attached p (List.mem_of_mem_erase hp')

theorem Gperftools.Paired.attachMetadata (h : G.Paired s (span :: pending) pairs)
    (huse : span.use ≠ .metadata) (hlt : G.useAlignment span.use < 128) (answer : Option Grant) :
    Meets (· = .undocumented) (fun r => (r.2 = none ∧ answer = none ∧ G.Paired r.1 pending pairs) ∨
      (r.2 = some span ∧ ∃ metaspan, G.Paired r.1 pending ((span, metaspan) :: pairs)))
      (s.attachMetadata span (G.useAlignment span.use) answer) := by
  apply (h.new _ _ _).bind
  intro r hr
  obtain ⟨s', r⟩ := r
  rcases hr with ⟨heq, hanswer⟩ | ⟨metaspan, rfl, hmeta, hlength, hpaired⟩
  · cases heq
    refine (h.delete.mono (fun _ hf => hf.elim) fun _ hs => hs.2.2).bind fun s' hs' => ?_
    exact Or.inl ⟨rfl, hanswer, hs'⟩
  · have hattached := attached_setEntries s'.pageTable huse hmeta hlt
      (hpaired.fits _ hpaired.mem_pending) hlength
    have hspan : span ∈ metaspan :: span :: pending := by simp
    have htable := hpaired.set_table hspan fun page hpage =>
      setEntries_of_not_covers (metaspan.start * kPageSize) (G.useAlignment span.use) hpage
    simp only [PageHeap.setEntries_pages]
    rw [Nat.shiftLeft_eq]
    exact Or.inr ⟨rfl, metaspan, htable.pair hattached⟩

/-- What giving back a pair does: the entries of the span are zero, the pair is gone, and all else is
as it was. -/
structure PageHeap.Dissolved (s : PageHeap) (span metaspan : HeapSpan) (s' : PageHeap) : Prop where
  table : ∀ page, s'.pageTable page = if span.Covers page then 0 else s.pageTable page
  spans : s'.spans = (s.spans.erase metaspan).erase span

theorem Gperftools.Paired.dissolve (h : G.Paired s pending pairs) (hp : (span, metaspan) ∈ pairs) :
    Meets (fun _ => False) (fun s' => s.Dissolved span metaspan s' ∧
      G.Paired s' pending (pairs.erase (span, metaspan))) (s.dissolve span) := by
  have hmem := h.mem_pair hp
  have hattached := h.attached _ hp
  have hstart : span.start * 2 ^ kPageShift / METALLOC_PAGESIZE = 2 * span.start := by
    simp only [kPageShift, METALLOC_PAGESIZE, METALLOC_PAGESHIFT]
    omega
  have hmetapage :
      (s.pageTable ((span.start <<< kPageShift) / METALLOC_PAGESIZE) >>> 8) >>> kPageShift =
        metaspan.start := by
    rw [Nat.shiftLeft_eq, hstart, hattached.first_entry (h.fits _ hmem.1),
      Nat.shiftRight_eq_div_pow]
    exact Nat.mul_div_cancel _ (by decide)
  obtain ⟨cleared, hcleared⟩ : ∃ cleared : PageHeap, cleared = { s with
      pageTable := setEntries s.pageTable (2 * span.start) 0 0 (2 * span.length) } := ⟨_, rfl⟩
  have hfront : G.Paired cleared (metaspan :: span :: pending) (pairs.erase (span, metaspan)) := by
    have hspan : span ∈ metaspan :: span :: pending := by simp
    rw [hcleared]
    exact (h.unpair hp).set_table hspan fun page hpage => setEntries_of_not_covers 0 0 hpage
  have hdescriptor := hfront.getDescriptor hfront.mem_pending
  have hclear (page : Nat) :
      cleared.pageTable page = if span.Covers page then 0 else s.pageTable page := by
    simp only [hcleared, setEntries_apply, HeapSpan.covers_iff_page, HeapState.pageEntry_zero]
  rw [PageHeap.dissolve, PageHeap.setEntries_pages, ← hcleared, hmetapage]
  refine Meets.bind (m := (· = cleared)) rfl ?_
  rintro _ rfl
  simp only [hdescriptor]
  apply hfront.delete.bind
  intro s₁ hdelete₁
  obtain ⟨htable₁, hspans₁, hpaired₁⟩ := hdelete₁
  apply hpaired₁.delete.mono (fun _ hf => hf)
  intro s₂ hdelete₂
  obtain ⟨htable₂, hspans₂, hpaired₂⟩ := hdelete₂
  refine ⟨⟨fun page => ?_, ?_⟩, hpaired₂⟩
  · rw [htable₂, htable₁, hclear]
  · rw [hspans₂, hspans₁, hcleared]

/-! The operations. -/

/-- An operation keeps every pair, and may have added one. -/
def Gperftools.Keeps (G : Gperftools) (s' : PageHeap) (pairs : List (HeapSpan × HeapSpan)) : Prop :=
  ∃ pairs', G.Paired s' [] pairs' ∧ ∀ p ∈ pairs, p ∈ pairs'

theorem Gperftools.Paired.keeps (h : G.Paired s [] pairs) : G.Keeps s pairs :=
  ⟨pairs, h, fun _ hp => hp⟩

theorem Gperftools.Paired.keeps_cons (h : G.Paired s [] (p :: pairs)) : G.Keeps s pairs :=
  ⟨p :: pairs, h, fun _ hp => List.mem_cons_of_mem _ hp⟩

theorem Gperftools.useAlignment_lt (G : Gperftools) (use : SpanUse) : G.useAlignment use < 128 := by
  cases use with
  | small objectSize =>
    have := trailingZeros_le 64 objectSize
    simp only [useAlignment, alignmentBitsForSize, kPageShift]
    split <;> omega
  | large => exact (by decide : kPageShift < 128)
  | metadata => exact (by decide : 0 < 128)

theorem Gperftools.Paired.attachMetadata_keeps (h : G.Paired s [span] pairs)
    (huse : span.use ≠ .metadata) (answer : Option Grant) :
    Meets (· = .undocumented) (fun r => (r.2 = none → answer = none) ∧ G.Keeps r.1 pairs)
      (s.attachMetadata span (G.useAlignment span.use) answer) := by
  apply (h.attachMetadata huse (G.useAlignment_lt _) answer).mono (fun _ hf => hf)
  intro r hr
  rcases hr with ⟨-, hanswer, hpaired⟩ | ⟨hr, metaspan, hpaired⟩
  · exact ⟨fun _ => hanswer, hpaired.keeps⟩
  · exact ⟨fun hnone => by simp [hr] at hnone, hpaired.keeps_cons⟩

/-- A new span of objects, with its metadata. -/
theorem Gperftools.Paired.newSpan (h : G.Paired s [] pairs) (length : Nat) {use : SpanUse}
    (huse : use ≠ .metadata) (a : SpanAnswer) :
    Meets (· = .undocumented) (fun r => G.Keeps r.1 pairs) (do
      match ← s.new length use a.span with
      | (s, none) => return (s, none)
      | (s, some span) => s.attachMetadata span (G.useAlignment use) a.metaspan) := by
  apply (h.new _ _ _).bind
  intro r hr
  obtain ⟨s', r⟩ := r
  rcases hr with ⟨heq, -⟩ | ⟨span, rfl, rfl, -, hpaired⟩
  · cases heq
    exact h.keeps
  · exact (hpaired.attachMetadata_keeps huse _).mono (fun _ hf => hf) fun _ hr => hr.2

theorem Gperftools.Paired.swap (h : G.Paired s (span :: other :: pending) pairs) :
    G.Paired s (other :: span :: pending) pairs :=
  ⟨h.perm.trans (List.Perm.swap _ _ _), h.apart, h.fits, h.attached⟩

theorem Gperftools.Paired.skipPages {skip : Nat} (h : G.Paired s (span :: pending) pairs)
    (hlt : skip < span.length) :
    Meets (fun _ => False) (fun r => r.2.use = span.use ∧ r.2.length = span.length - skip ∧
      G.Paired r.1 (r.2 :: pending) pairs) (Gperftools.skipPages s span skip) := by
  unfold Gperftools.skipPages
  split
  · rename_i hskip
    refine (h.split hskip hlt).bind fun r ⟨_, hlength, _, huse, hpaired⟩ => ?_
    refine hpaired.delete.bind fun s₁ ⟨_, _, hs₁⟩ => ?_
    exact ⟨huse, hlength, hs₁⟩
  · exact ⟨rfl, by simp only; omega, h⟩

theorem Gperftools.Paired.dropTrailer {needed : Nat} (h : G.Paired s (span :: pending) pairs)
    (hneeded : 0 < needed) :
    Meets (fun _ => False) (fun r => r.2.use = span.use ∧ G.Paired r.1 (r.2 :: pending) pairs)
      (Gperftools.dropTrailer s span needed) := by
  unfold Gperftools.dropTrailer
  split
  · rename_i htrailer
    refine (h.split hneeded htrailer).bind fun r ⟨_, _, huse, _, hsplit⟩ => ?_
    refine hsplit.swap.delete.bind fun s₁ ⟨_, _, hs₁⟩ => ?_
    exact ⟨huse, hs₁⟩
  · exact ⟨rfl, h⟩

/-- Only where the metadata span is missing does `do_memalign` go on with a null span. -/
theorem Gperftools.Paired.alignedSpan {align size : Nat} (hG : G.Documented)
    (h : G.Paired s [] pairs) (hpos : 0 < size) (hlt : size < 2 ^ 64) (a : SpanAnswer) :
    Meets (fun f => f = .undocumented ∨ f = .nullSpan ∧ a.metaspan = none)
      (fun r => G.Keeps r.1 pairs) (G.alignedSpan s align size a) := by
  have hlarge : SpanUse.large ≠ .metadata := by decide
  have hneeded : 0 < G.pages size := by
    have hpages := hG.le_pages size hlt
    apply Nat.pos_of_ne_zero
    intro hzero
    rw [hzero] at hpages
    omega
  refine ((h.new _ _ _).mono (fun _ hf => Or.inl hf) fun _ hr => hr).bind fun r hr => ?_
  obtain ⟨s₁, r⟩ := r
  rcases hr with ⟨heq, -⟩ | ⟨span, rfl, huse, -, hpaired⟩
  · cases heq
    exact h.keeps
  simp only
  split
  swap
  · exact Or.inl rfl
  rename_i hskips
  have hroom := hskips.2
  refine ((hpaired.skipPages (by omega)).mono (fun _ hf => hf.elim) fun _ hr => hr).bind
    fun r ⟨huse₂, _, hpaired₂⟩ => ?_
  refine ((hpaired₂.dropTrailer hneeded).mono (fun _ hf => hf.elim) fun _ hr => hr).bind
    fun r ⟨huse₃, hpaired₃⟩ => ?_
  have hobject : r.2.use = .large := huse₃.trans (huse₂.trans huse)
  have hattach := hpaired₃.attachMetadata_keeps (by rw [hobject]; exact hlarge) a.metaspan
  rw [hobject] at hattach
  refine (hattach.mono (fun _ hf => Or.inl hf) fun _ hr => hr).bind fun r ⟨hnone, hkeeps⟩ => ?_
  obtain ⟨s₄, r⟩ := r
  cases r with
  | none => exact Or.inr ⟨rfl, hnone rfl⟩
  | some span => exact hkeeps

theorem Gperftools.Paired.memalignPages (hG : G.Documented) (h : G.Paired s [] pairs)
    (align size : Nat) (a : SpanAnswer) :
    Meets (fun f => f = .undocumented ∨ f = .nullSpan ∧ kPageSize < align ∧ a.metaspan = none)
      (fun r => G.Keeps r.1 pairs) (G.memalignPages s align size a) := by
  have hclear : clearSize size < 2 ^ 64 := Nat.lt_of_le_of_lt Nat.and_le_right (by decide)
  unfold Gperftools.memalignPages
  simp only
  split
  · exact h.keeps
  split
  · exact (h.newSpan _ (by decide) a).mono (fun _ hf => Or.inl hf) fun _ hr => hr
  · rename_i halign
    refine (h.alignedSpan hG ?_ ?_ a).mono (fun _ hf => ?_) fun _ hr => hr
    · split <;> omega
    · split <;> omega
    · exact hf.imp_right fun hnull => ⟨hnull.1, Nat.not_le.mp halign, hnull.2⟩

end Paired

end TypeSan
