import TypeSan.AllocSize
import TypeSan.Library.Runs
import TypeSan.SpanPairs

/-! Each span of objects owns one metadata span, which the page table alone records. -/
namespace TypeSan

open Checked PageMap Rounding Runs

/-- The span finds its metadata span through the page table. -/
structure Gperftools.Owns (G : Gperftools) (s : PageHeap) (span metaspan : HeapSpan) : Prop where
  object_live : span ∈ s.spans ∧ span.use ≠ .metadata
  metadata_live : metaspan ∈ s.spans ∧ metaspan.use = .metadata
  first_entry : s.pageTable (span.start * kPageSize / METALLOC_PAGESIZE) >>> 8 =
    metaspan.start * kPageSize
  entries : ∀ page, span.Covers page →
    InRange metaspan.start metaspan.length ((s.pageTable page >>> 8) / kPageSize) ∧
      s.pageTable page &&& 0xFF = G.useAlignment span.use
  room : granules (span.length * kPageSize) (G.useAlignment span.use) * 16 ≤
    metaspan.length * kPageSize

/-- Spans in use are apart, each span of objects owns one metadata span, and each metadata span has
one owner. -/
structure Gperftools.MetadataOwned (G : Gperftools) (s : PageHeap) : Prop where
  apart : s.spans.Pairwise HeapSpan.Apart
  owned : ∀ span ∈ s.spans, span.use ≠ .metadata → ∃! metaspan, G.Owns s span metaspan
  owner : ∀ metaspan ∈ s.spans, metaspan.use = .metadata → ∃! span, G.Owns s span metaspan

/-- The operation that gives a span of objects back. -/
def HeapSpan.giveBack (span : HeapSpan) : SpanEvent :=
  if span.use.isSmall then .releaseToSpans span.start else .doFreeHelper span.start

variable {G : Gperftools} {s s' : PageHeap} {pairs : List (HeapSpan × HeapSpan)}
  {span metaspan : HeapSpan} {p : HeapSpan × HeapSpan} {e : SpanEvent}

theorem Gperftools.Paired.owns (h : G.Paired s [] pairs) (hp : (span, metaspan) ∈ pairs) :
    G.Owns s span metaspan where
  object_live := ⟨(h.mem_pair hp).1, (h.attached _ hp).is_object⟩
  metadata_live := ⟨(h.mem_pair hp).2, (h.attached _ hp).is_metadata⟩
  first_entry := by
    have hstart : span.start * kPageSize / METALLOC_PAGESIZE = 2 * span.start := by
      simp only [kPageSize, kPageShift, METALLOC_PAGESIZE, METALLOC_PAGESHIFT]
      omega
    rw [hstart]
    exact (h.attached _ hp).first_entry (h.fits _ (h.mem_pair hp).1)
  entries page hpage := by
    obtain ⟨hentry, halign⟩ := (h.attached _ hp).entry hpage
    refine ⟨?_, halign⟩
    have hroom := (h.attached _ hp).room
    have hbyte : (page - 2 * span.start) * METALLOC_PAGESIZE < span.length * kPageSize := by
      have := HeapSpan.covers_iff_page.mp hpage
      simp only [kPageSize, kPageShift, METALLOC_PAGESIZE, METALLOC_PAGESHIFT]
      omega
    have hgranule := div_lt_granules (a := G.useAlignment span.use) hbyte
    rw [hentry]
    simp only [InRange, kPageSize, kPageShift] at *
    omega
  room := (h.attached _ hp).room

/-- A span of objects is the first of a pair. -/
theorem Gperftools.Paired.exists_metadata (h : G.Paired s [] pairs) (hspan : span ∈ s.spans)
    (huse : span.use ≠ .metadata) : ∃ metaspan, (span, metaspan) ∈ pairs := by
  obtain ⟨p, hp, hmem⟩ := List.mem_flatMap.mp (h.perm.mem_iff.mp hspan)
  simp only [List.mem_cons, List.not_mem_nil, or_false] at hmem
  rcases hmem with rfl | rfl
  · exact ⟨p.2, hp⟩
  · exact (huse (h.attached _ hp).is_metadata).elim

theorem Gperftools.Paired.exists_object (h : G.Paired s [] pairs) (hmeta : metaspan ∈ s.spans)
    (huse : metaspan.use = .metadata) : ∃ span, (span, metaspan) ∈ pairs := by
  obtain ⟨p, hp, hmem⟩ := List.mem_flatMap.mp (h.perm.mem_iff.mp hmeta)
  simp only [List.mem_cons, List.not_mem_nil, or_false] at hmem
  rcases hmem with rfl | rfl
  · exact ((h.attached _ hp).is_object huse).elim
  · exact ⟨p.1, hp⟩

/-- The page table names one metadata span. -/
theorem Gperftools.Paired.owns_unique {other : HeapSpan} (h : G.Paired s [] pairs)
    (ho : G.Owns s span metaspan) (ho' : G.Owns s span other) : metaspan = other := by
  refine h.eq_of_start ho.metadata_live.1 ho'.metadata_live.1 ?_
  have hstart := ho.first_entry.symm.trans ho'.first_entry
  exact Nat.eq_of_mul_eq_mul_right (by decide) hstart

theorem Gperftools.Paired.owns_iff (h : G.Paired s [] pairs) :
    G.Owns s span metaspan ↔ (span, metaspan) ∈ pairs := by
  refine ⟨fun ho => ?_, h.owns⟩
  obtain ⟨other, hother⟩ := h.exists_metadata ho.object_live.1 ho.object_live.2
  rwa [h.owns_unique ho (h.owns hother)]

/-- A metadata span is in one pair. -/
theorem Gperftools.Paired.owner_unique {other : HeapSpan} (h : G.Paired s [] pairs)
    (hp : (span, metaspan) ∈ pairs) (hp' : (other, metaspan) ∈ pairs) : span = other := by
  by_contra hne
  have hrest := (h.unpair hp).perm.nodup_iff.mp h.nodup
  have hmem : (other, metaspan) ∈ pairs.erase (span, metaspan) :=
    (List.mem_erase_of_ne (by simpa using Ne.symm hne)).mpr hp'
  have hflat : metaspan ∈ (pairs.erase (span, metaspan)).flatMap fun p => [p.1, p.2] :=
    List.mem_flatMap.mpr ⟨_, hmem, by simp⟩
  have := List.nodup_cons.mp hrest
  simp [hflat] at this

theorem Gperftools.Paired.metadataOwned (h : G.Paired s [] pairs) : G.MetadataOwned s where
  apart := h.apart
  owned span hspan huse := by
    obtain ⟨metaspan, hp⟩ := h.exists_metadata hspan huse
    exact ⟨metaspan, h.owns hp, fun other ho => h.owns_unique ho (h.owns hp)⟩
  owner metaspan hmeta huse := by
    obtain ⟨span, hp⟩ := h.exists_object hmeta huse
    exact ⟨span, h.owns hp, fun other ho => h.owner_unique (h.owns_iff.mp ho) hp⟩

/-! Steps and runs. -/

theorem meets_map {α β ε : Type} {fault : ε → Prop} {post : β → Prop} {f : α → β}
    {r : Except ε α} : Meets fault post (r.map f) ↔ Meets fault (fun a => post (f a)) r := by
  cases r <;> rfl

/-- The faults of an operation that are not the page heap's. -/
def SpanEvent.MayFault (e : SpanEvent) (f : HeapFault) : Prop :=
  f = .nullSpan ∧ ∃ align size a, e = .doMemalign align size a ∧ kPageSize < align ∧
    a.metaspan = none

/-- Each pair is still there, or was given back. -/
def Gperftools.Settles (G : Gperftools) (s : PageHeap) (pairs : List (HeapSpan × HeapSpan))
    (e : SpanEvent) (s' : PageHeap) : Prop :=
  ∃ pairs', G.Paired s' [] pairs' ∧
    ∀ p ∈ pairs, p ∈ pairs' ∨ e = p.1.giveBack ∧ s.Dissolved p.1 p.2 s'

theorem Gperftools.Keeps.settles (h : G.Keeps s' pairs) : G.Settles s pairs e s' := by
  obtain ⟨pairs', hpaired, hmem⟩ := h
  exact ⟨pairs', hpaired, fun p hp => Or.inl (hmem p hp)⟩

theorem Gperftools.Paired.onSpan (h : G.Paired s [] pairs) {start : Nat} {kind : SpanUse → Bool}
    (hkind : ∀ use, kind use = true → use ≠ .metadata)
    (hevent : ∀ span ∈ s.spans, span.start = start → kind span.use = true → e = span.giveBack) :
    Meets (· = .undocumented) (G.Settles s pairs e) (s.onSpan start kind s.dissolve) := by
  unfold PageHeap.onSpan
  split
  · rfl
  rename_i span hfound
  have hspan : span ∈ s.spans := List.mem_of_find?_eq_some hfound
  have hstart : span.start = start := by simpa using List.find?_some hfound
  split
  · rename_i huse
    obtain ⟨metaspan, hp⟩ := h.exists_metadata hspan (hkind _ huse)
    refine (h.dissolve hp).mono (fun _ hf => hf.elim) fun s' ⟨hdissolved, hpaired⟩ => ?_
    refine ⟨_, hpaired, ?_⟩
    intro p hp'
    by_cases heq : p = (span, metaspan)
    · subst heq
      exact Or.inr ⟨hevent span hspan hstart huse, hdissolved⟩
    · exact Or.inl ((List.mem_erase_of_ne heq).mpr hp')
  · rfl

theorem Gperftools.Paired.outcome (hG : G.Documented) (h : G.Paired s [] pairs) (e : SpanEvent) :
    Meets (fun f => f = .undocumented ∨ e.MayFault f) (G.Settles s pairs e) (G.outcome s e) := by
  cases e with
  | populate objectSize a =>
    have huse : SpanUse.small objectSize ≠ .metadata := by simp
    exact meets_map.mpr ((h.newSpan _ huse a).mono (fun _ hf => Or.inl hf) fun _ hr => hr.settles)
  | doMallocPages size a =>
    have huse : SpanUse.large ≠ .metadata := by simp
    exact meets_map.mpr ((h.newSpan _ huse a).mono (fun _ hf => Or.inl hf) fun _ hr => hr.settles)
  | doMemalign align size a =>
    refine meets_map.mpr ((h.memalignPages hG align size a).mono (fun _ hf => ?_)
      fun _ hr => hr.settles)
    exact hf.imp_right fun ⟨hnull, halign, hmeta⟩ => ⟨hnull, align, size, a, rfl, halign, hmeta⟩
  | releaseToSpans start =>
    have hrelease : Meets (· = .undocumented) (G.Settles s pairs (.releaseToSpans start))
        (s.onSpan start SpanUse.isSmall s.dissolve) := by
      refine h.onSpan (fun use hsmall => ?_) fun span _ hstart hsmall => ?_
      · rintro rfl
        cases hsmall
      · rw [HeapSpan.giveBack, if_pos hsmall, hstart]
    exact hrelease.mono (fun _ hf => Or.inl hf) fun _ hs => hs
  | doFreeHelper start =>
    have hrelease : Meets (· = .undocumented) (G.Settles s pairs (.doFreeHelper start))
        (s.onSpan start (· = .large) s.dissolve) := by
      refine h.onSpan (fun use hlarge => ?_) fun span _ hstart hlarge => ?_
      · rw [of_decide_eq_true hlarge]
        simp
      · rw [HeapSpan.giveBack, of_decide_eq_true hlarge, hstart]
        rfl
    exact hrelease.mono (fun _ hf => Or.inl hf) fun _ hs => hs
  | hooks words =>
    simp only [Gperftools.outcome]
    split
    · rename_i happart
      refine ⟨pairs, ⟨h.perm, h.apart, h.fits, fun p hp => ?_⟩, fun p hp => Or.inl hp⟩
      refine (h.attached p hp).frame fun page hpage =>
        hookWords_of_forall_ne fun word hword heq => ?_
      exact happart word hword _ (h.mem_pair hp).1 (heq ▸ hpage)
    · exact Or.inl rfl

/-- A live span of objects can be given back, and takes its metadata span with it. -/
theorem Gperftools.Paired.giveBack (h : G.Paired s [] pairs) (hp : (span, metaspan) ∈ pairs) :
    ∃ s', G.outcome s span.giveBack = .ok s' ∧ s.Dissolved span metaspan s' := by
  obtain ⟨s', hs', hdissolved, -⟩ := (h.dissolve hp).exists_ok
  refine ⟨s', ?_, hdissolved⟩
  have hdescriptor := h.getDescriptor (h.mem_pair hp).1
  have hobject := (h.attached _ hp).is_object
  simp only at hdescriptor hobject
  unfold HeapSpan.giveBack
  cases huse : span.use with
  | small objectSize =>
    simpa [SpanUse.isSmall, Gperftools.outcome, PageHeap.onSpan, hdescriptor, huse,
      PageHeap.releaseToSpans] using hs'
  | large =>
    simpa [SpanUse.isSmall, Gperftools.outcome, PageHeap.onSpan, hdescriptor, huse,
      PageHeap.doFreeHelper] using hs'
  | metadata => exact (hobject huse).elim

theorem Gperftools.paired_of_visits (hG : G.Documented) {events : List SpanEvent}
    (h : Visits G.spanStep .initial events s) : ∃ pairs, G.Paired s [] pairs := by
  refine visits_invariant (I := fun s => ∃ pairs, G.Paired s [] pairs) ⟨[], ?_⟩ ?_ guarded_true h
  · refine ⟨List.Perm.refl _, List.Pairwise.nil, fun _ hspan => ?_, fun _ hp => ?_⟩
    · cases hspan
    · cases hp
  · rintro t e u ⟨pairs, hpaired⟩ - hstep
    have houtcome := hpaired.outcome hG e
    unfold Gperftools.spanStep at hstep
    cases hu : G.outcome t e with
    | ok u' =>
      rw [hu] at hstep houtcome
      cases hstep
      obtain ⟨pairs', hpaired', -⟩ := houtcome
      exact ⟨pairs', hpaired'⟩
    | error f =>
      rw [hu] at hstep
      cases hstep

/-- In every state of every run the metadata spans are owned, and an operation leaves each owner its
metadata span until it gives both back. -/
theorem metadataSpans_owned (hG : G.Documented) {events : List SpanEvent}
    (h : Visits G.spanStep .initial events s) :
    G.MetadataOwned s ∧
    (∀ e f, G.outcome s e = .error f → f = .undocumented ∨ e.MayFault f) ∧
    (∀ e s' span metaspan, G.outcome s e = .ok s' → G.Owns s span metaspan →
      G.Owns s' span metaspan ∨ e = span.giveBack ∧ s.Dissolved span metaspan s') ∧
    ∀ span metaspan, G.Owns s span metaspan →
      ∃ s', G.outcome s span.giveBack = .ok s' ∧ s.Dissolved span metaspan s' := by
  obtain ⟨pairs, hpaired⟩ := Gperftools.paired_of_visits hG h
  refine ⟨hpaired.metadataOwned, fun e f hf => (hpaired.outcome hG e).of_error hf,
    fun e s' span metaspan hs' ho => ?_, fun span metaspan ho => ?_⟩
  · obtain ⟨pairs', hpaired', hsettles⟩ := (hpaired.outcome hG e).of_ok hs'
    exact (hsettles _ (hpaired.owns_iff.mp ho)).imp_left hpaired'.owns
  · exact hpaired.giveBack (hpaired.owns_iff.mp ho)

/-- A span of small objects, an aligned span cut out of a larger one, a span of a large object, a
request without metadata, and the first span given back. -/
theorem metadataSpans_owned_of_run :
    ∃ s, exec patchedGperftools.spanStep .initial
        [.populate 16 ⟨some ⟨16, 32, [(32, 7)]⟩, 0, some ⟨64, 32, []⟩⟩,
          .doMemalign 0x10000 0x6000 ⟨some ⟨101, 12, []⟩, 3, some ⟨120, 1, []⟩⟩,
          .doMallocPages 600000 ⟨some ⟨200, 74, []⟩, 0, some ⟨280, 1, []⟩⟩,
          .doMallocPages 600000 ⟨some ⟨300, 74, []⟩, 0, none⟩,
          .releaseToSpans 16] = some s ∧
      s.spans = [⟨280, 1, .metadata⟩, ⟨200, 74, .large⟩, ⟨120, 1, .metadata⟩, ⟨104, 3, .large⟩] ∧
      patchedGperftools.MetadataOwned s := by
  have hrun : (exec patchedGperftools.spanStep .initial
      [.populate 16 ⟨some ⟨16, 32, [(32, 7)]⟩, 0, some ⟨64, 32, []⟩⟩,
        .doMemalign 0x10000 0x6000 ⟨some ⟨101, 12, []⟩, 3, some ⟨120, 1, []⟩⟩,
        .doMallocPages 600000 ⟨some ⟨200, 74, []⟩, 0, some ⟨280, 1, []⟩⟩,
        .doMallocPages 600000 ⟨some ⟨300, 74, []⟩, 0, none⟩,
        .releaseToSpans 16]).map PageHeap.spans =
      some [⟨280, 1, .metadata⟩, ⟨200, 74, .large⟩, ⟨120, 1, .metadata⟩, ⟨104, 3, .large⟩] := by
    decide +kernel
  obtain ⟨s, hs, hspans⟩ := Option.map_eq_some_iff.mp hrun
  exact ⟨s, hs, hspans, (metadataSpans_owned patchedGperftools_documented (visits_last hs)).1⟩

end TypeSan
