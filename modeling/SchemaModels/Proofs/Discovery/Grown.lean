import SchemaModels.Proofs.Discovery.Sorted
import SchemaModels.Proofs.Glob.Growth

namespace SchemaModels.Discovery

open Disk

variable {d d' : Disk} {dir : Path} {pattern : String} {q : Glob.Query} {paths : List Path}
  {tables : List Table}

theorem readTable_unique {p p' : Path} {t t' : Table} (heq : p.components = p'.components)
    (h : readTable d p = .ok t) (h' : readTable d p' = .ok t') : t = t' := by
  obtain ⟨bytes, hread, hbytes⟩ := readTable_eq_ok.1 h
  obtain ⟨bytes', hread', hbytes'⟩ := readTable_eq_ok.1 h'
  obtain ⟨loc, hr, hfile⟩ := read_eq_ok.1 hread
  obtain ⟨loc', hr', hfile'⟩ := read_eq_ok.1 hread'
  cases resolve_eq_of_components_eq heq hr hr'
  cases hfile.symm.trans hfile'
  exact Option.some.inj (hbytes.symm.trans hbytes')

theorem nodup_map_of_forall₂ {α β γ δ : Type} {R : α → β → Prop} {xs : List α} {ys : List β}
    {f : α → γ} {g : β → δ} (h : List.Forall₂ R xs ys) (hys : (ys.map g).Nodup)
    (happart : ∀ x x' y y', R x y → R x' y' → f x = f x' → g y = g y') : (xs.map f).Nodup := by
  induction h with
  | nil => exact .nil
  | @cons x y xs ys hxy hrest ih =>
    obtain ⟨hy, hys⟩ := List.nodup_cons.1 hys
    refine List.nodup_cons.2 ⟨fun hmem => hy ?_, ih hys⟩
    obtain ⟨x', hx', heq⟩ := List.mem_map.1 hmem
    obtain ⟨y', hy', hxy'⟩ := exists_of_forall₂ hrest.flip hx'
    rw [happart x x' y y' hxy hxy' heq.symm]
    exact List.mem_map_of_mem hy'

theorem nodup_components_of_load (h : load d paths = .ok tables) :
    (paths.map Path.components).Nodup := by
  refine nodup_map_of_forall₂ (load_eq_ok.1 h).1 (nodup_tableKey_of_load h) ?_
  intro p p' t t' ht ht' heq
  rw [readTable_unique heq ht ht']

theorem perm_files (h : d.KeepsKinds d') (hd : d.WellNamed) (hd' : d'.WellNamed)
    (hq : Glob.Query.ofChars (fullPattern dir pattern) = .ok q) :
    ((q.paths d').filter d.isFile).Perm ((q.paths d).filter d.isFile) := by
  have hfound := (Glob.Query.enumerates_paths hd' q).filter d.isFile
  refine (hfound.congr fun t p => ?_).perm (enumerates_files hd q)
  refine and_congr_left fun hfile => ?_
  exact Glob.leads_iff_of_keepsKinds h hd' (Glob.Query.slashFree hq) hfile

theorem filter_isFile_eq (h : d.KeepsKinds d')
    (hold : ∀ p ∈ (q.paths d').filter d'.isFile, d.isFile p = true) :
    (q.paths d').filter d'.isFile = (q.paths d').filter d.isFile := by
  refine List.filter_congr fun p hp => ?_
  rw [Bool.eq_iff_iff]
  exact ⟨fun hfile => hold p (List.mem_filter.2 ⟨hp, hfile⟩), h.isFile⟩

theorem exists_query_of_find (h : find d dir pattern = .ok paths) :
    ∃ q, Glob.Query.ofChars (fullPattern dir pattern) = .ok q := by
  obtain ⟨q, hq, -⟩ := bind_eq_ok.1 h
  exact ⟨q, mapError_eq_ok.1 hq⟩

theorem mem_find (hq : Glob.Query.ofChars (fullPattern dir pattern) = .ok q)
    (hf : find d dir pattern = .ok paths) {p : Path} :
    p ∈ paths ↔ p ∈ (q.paths d).filter d.isFile := by
  obtain ⟨-, rfl⟩ := (find_eq_ok hq).1 hf
  exact (List.mergeSort_perm _ _).mem_iff

/-- On a disk that has grown the same files are found if all that are found were files before. -/
theorem find_of_keepsKinds (h : d.KeepsKinds d') (hd : d.WellNamed) (hd' : d'.WellNamed)
    {paths' : List Path} (hf : find d dir pattern = .ok paths)
    (hf' : find d' dir pattern = .ok paths') (hnodup : (paths.map Path.components).Nodup)
    (hold : ∀ p ∈ paths', d.isFile p = true) : paths' = paths := by
  obtain ⟨q, hq⟩ := exists_query_of_find hf
  obtain ⟨-, rfl⟩ := (find_eq_ok hq).1 hf
  obtain ⟨-, rfl⟩ := (find_eq_ok hq).1 hf'
  have hperm := perm_files h hd hd' hq
  rw [← filter_isFile_eq h fun p hp => hold p ((List.mergeSort_perm _ _).mem_iff.2 hp)] at hperm
  rw [((List.mergeSort_perm _ _).map _).nodup_iff] at hnodup
  refine Path.Increasing.eq_of_perm (Path.increasing_mergeSort_iff.2 ?_)
    (Path.increasing_mergeSort_iff.2 hnodup) ?_
  · exact (hperm.map _).nodup_iff.2 hnodup
  · exact (List.mergeSort_perm _ _).trans (hperm.trans (List.mergeSort_perm _ _).symm)

theorem exists_find_of_keepsKinds (h : d.KeepsKinds d') (hd : d.WellNamed) (hd' : d'.WellNamed)
    (hf : find d dir pattern = .ok paths) : ∃ paths', find d' dir pattern = .ok paths' := by
  obtain ⟨q, hq⟩ := exists_query_of_find hf
  obtain ⟨hne, -⟩ := (find_eq_ok hq).1 hf
  obtain ⟨p, hp⟩ := List.exists_mem_of_ne_nil paths hne
  have hmem := (perm_files h hd hd' hq).mem_iff.2 ((mem_find hq hf).1 hp)
  obtain ⟨hmem, hfile⟩ := List.mem_filter.1 hmem
  refine ⟨_, (find_eq_ok hq).2 ⟨?_, rfl⟩⟩
  refine List.ne_nil_of_mem (a := p) ((List.mergeSort_perm _ _).mem_iff.2 ?_)
  exact List.mem_filter.2 ⟨hmem, h.isFile hfile⟩

/-- The other way round: files that were none before make the list longer. -/
theorem isFile_of_length_eq (h : d.KeepsKinds d') (hd : d.WellNamed) (hd' : d'.WellNamed)
    {paths' : List Path} (hf : find d dir pattern = .ok paths)
    (hf' : find d' dir pattern = .ok paths') (hlength : paths'.length = paths.length) :
    ∀ p ∈ paths', d.isFile p = true := by
  obtain ⟨q, hq⟩ := exists_query_of_find hf
  intro p hp
  rw [mem_find hq hf'] at hp
  obtain ⟨-, rfl⟩ := (find_eq_ok hq).1 hf
  obtain ⟨-, rfl⟩ := (find_eq_ok hq).1 hf'
  have hsub := List.monotone_filter_right (q.paths d') (p := d.isFile) (q := d'.isFile)
    fun _ hfile => h.isFile hfile
  rw [List.length_mergeSort, List.length_mergeSort, ← (perm_files h hd hd' hq).length_eq] at hlength
  rw [← hsub.eq_of_length hlength.symm] at hp
  exact (List.mem_filter.1 hp).2

theorem load_of_read (hread : ∀ p ∈ paths, ∀ bytes, d.read p = .ok bytes → d'.read p = .ok bytes)
    (h : load d paths = .ok tables) : load d' paths = .ok tables := by
  obtain ⟨htables, hne, hdup⟩ := load_eq_ok.1 h
  refine load_eq_ok.2 ⟨?_, hne, hdup⟩
  have hmem : List.Forall₂ (fun p t => p ∈ paths ∧ readTable d p = .ok t) paths tables :=
    (List.forall₂_and_left paths tables).2 ⟨fun _ => id, htables⟩
  refine hmem.imp fun p t ⟨hp, ht⟩ => ?_
  obtain ⟨bytes, hbytes, ht⟩ := readTable_eq_ok.1 ht
  exact readTable_eq_ok.2 ⟨bytes, hread p hp bytes hbytes, ht⟩

theorem length_eq_of_load (h : load d paths = .ok tables) : tables.length = paths.length :=
  (load_eq_ok.1 h).1.length_eq.symm

end SchemaModels.Discovery
