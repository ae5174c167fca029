import Mathlib.Data.List.Nodup
import SchemaModels.Proofs.Ddl.Clause
import SchemaModels.Proofs.Discovery.Gather
import SchemaModels.Selection

namespace SchemaModels

theorem Glob.reach_children {d : Disk} {path : Path} {p : Pattern} {rest : List Pattern}
    {loc : Location}
    (hp : literal? p = none) (hdot : p.head? ≠ some (.char '.')) (hdir : d.isDir path = true)
    (hloc : d.resolve path = .ok loc)
    (hsorted : (d.children loc).Pairwise fun a b => decide (a ≤ b) = true) :
    reach d path (p :: rest) = (d.children loc).map fun name => ⟨below path name, p :: rest⟩ := by
  rw [reach, hp]
  simp only [hdir, if_true, if_neg hdot, List.flatMap_nil, List.nil_append, childNames, hloc,
    List.mergeSort_of_pairwise hsorted]

/-- The tables have names of their own, and each name is a word. -/
structure NamedApart (tables : List Table) : Prop where
  nodup : (tables.map (·.names.text)).Nodup
  isWord : ∀ t ∈ tables, ∀ c ∈ t.names.text.toList, Text.isWord c = true

namespace Discovery

theorem find_eq {d : Disk} {dir : Path} {pattern : String} {q : Glob.Query}
    (hq : Glob.Query.ofChars (fullPattern dir pattern) = .ok q) :
    find d dir pattern =
      if ((q.paths d).filter d.isFile).mergeSort Path.le = [] then .error (.noMigrations dir.text)
      else .ok (((q.paths d).filter d.isFile).mergeSort Path.le) := by
  unfold find
  rw [hq]
  simp only [Except.mapError, bind, Except.bind]
  split
  · rename_i hnil
    rw [if_pos hnil]
  · rename_i hne
    rw [if_neg hne]

section Files

variable {d : Disk} {dir path : Path} {pattern : String} {paths : List Path}

theorem find_eq_of_files (h : (Glob.Query.ofChars (fullPattern dir pattern)).map
    (fun q => (q.paths d).filter d.isFile) = .ok paths) :
    find d dir pattern = if paths.mergeSort Path.le = [] then .error (.noMigrations dir.text)
      else .ok (paths.mergeSort Path.le) := by
  cases hq : Glob.Query.ofChars (fullPattern dir pattern) with
  | error e => simp [hq, Except.map] at h
  | ok q =>
    rw [hq, Except.map, Except.ok.injEq] at h
    rw [find_eq hq, h]

theorem find_eq_of_sorted (h : (Glob.Query.ofChars (fullPattern dir pattern)).map
    (fun q => (q.paths d).filter d.isFile) = .ok paths)
    (hsorted : paths.Pairwise fun p q => p.le q = true) (hne : paths ≠ []) :
    find d dir pattern = .ok paths := by
  rw [find_eq_of_files h, List.mergeSort_of_pairwise hsorted, if_neg hne]

theorem find_eq_singleton (h : (Glob.Query.ofChars (fullPattern dir pattern)).map
    (fun q => (q.paths d).filter d.isFile) = .ok [path]) :
    find d dir pattern = .ok [path] :=
  find_eq_of_sorted h (List.pairwise_singleton _ path) (List.cons_ne_nil path [])

theorem find_eq_noMigrations (h : (Glob.Query.ofChars (fullPattern dir pattern)).map
    (fun q => (q.paths d).filter d.isFile) = .ok []) :
    find d dir pattern = .error (.noMigrations dir.text) := by
  rw [find_eq_of_files h, List.mergeSort_nil, if_pos rfl]

end Files

theorem readTable_eq_ok {d : Disk} {path : Path} {t : Table} :
    readTable d path = .ok t ↔
      ∃ bytes, d.read path = .ok bytes ∧ Ddl.tableOfBytes? bytes = some t := by
  simp only [readTable, bind_eq_ok, mapError_eq_ok]
  refine exists_congr fun bytes => and_congr_right fun _ => ?_
  cases Ddl.tableOfBytes? bytes <;> simp

theorem nodup_of_duplicate?_eq_none {seen : List (String × Path)} {xs : List (Path × Table)}
    (h : duplicate? seen xs = none) : (xs.map fun x => tableKey x.2).Nodup ∧
      ∀ x ∈ xs, seen.lookup (tableKey x.2) = none := by
  induction xs generalizing seen with
  | nil => simp
  | cons x xs ih =>
    obtain ⟨path, t⟩ := x
    rw [duplicate?] at h
    split at h
    · cases h
    · rename_i hfresh
      obtain ⟨hnodup, hseen⟩ := ih h
      simp only [List.lookup_cons] at hseen
      refine ⟨List.nodup_cons.2 ⟨fun hmem => ?_, hnodup⟩, List.forall_mem_cons.2 ⟨hfresh, ?_⟩⟩
      · obtain ⟨x, hx, heq⟩ := List.mem_map.1 hmem
        simpa [heq] using hseen x hx
      · intro x hx
        have := hseen x hx
        split at this
        · cases this
        · exact this

theorem load_eq_ok {d : Disk} {paths : List Path} {tables : List Table} :
    load d paths = .ok tables ↔
      List.Forall₂ (fun path t => readTable d path = .ok t) paths tables ∧ tables ≠ [] ∧
        duplicate? [] (paths.zip tables) = none := by
  simp only [load_eq, bind_eq_ok, mapM_eq_ok, accept]
  constructor
  · rintro ⟨read, hread, h⟩
    split at h
    · cases h
    · rename_i hne
      split at h
      · cases h
      · rename_i hdup
        cases h
        exact ⟨hread, by simpa using hne, hdup⟩
  · rintro ⟨hread, hne, hdup⟩
    exact ⟨tables, hread, by simp [hne, hdup]⟩

theorem exists_bytes_of_load {d : Disk} {paths : List Path} {tables : List Table}
    (h : load d paths = .ok tables) : ∀ t ∈ tables, ∃ bytes, Ddl.tableOfBytes? bytes = some t := by
  intro t ht
  obtain ⟨path, -, hpath⟩ := exists_of_forall₂ (load_eq_ok.1 h).1 ht
  obtain ⟨bytes, -, hbytes⟩ := readTable_eq_ok.1 hpath
  exact ⟨bytes, hbytes⟩

theorem map_tableKey_zip {paths : List Path} {tables : List Table}
    (h : tables.length ≤ paths.length) :
    (paths.zip tables).map (tableKey ·.2) = tables.map tableKey := by
  rw [← Function.comp_def, ← List.map_map, List.map_snd_zip h]

theorem nodup_tableKey_of_load {d : Disk} {paths : List Path} {tables : List Table}
    (h : load d paths = .ok tables) : (tables.map tableKey).Nodup := by
  obtain ⟨hread, -, hdup⟩ := load_eq_ok.1 h
  have hnodup := (nodup_of_duplicate?_eq_none hdup).1
  rwa [map_tableKey_zip hread.length_eq.ge] at hnodup

theorem namedApart_of_load {d : Disk} {paths : List Path} {tables : List Table}
    (h : load d paths = .ok tables) : NamedApart tables := by
  constructor
  · refine List.Nodup.of_map (fun text => String.ofList (Text.lowerText text.toList)) ?_
    rw [List.map_map]
    exact nodup_tableKey_of_load h
  · intro t ht
    obtain ⟨bytes, hbytes⟩ := exists_bytes_of_load h t ht
    exact Ddl.isWord_of_tableOfBytes? hbytes

theorem enabled_of_load {d : Disk} {paths : List Path} {tables : List Table}
    (h : load d paths = .ok tables) : ∀ t ∈ tables, t.disabled = false := by
  intro t ht
  obtain ⟨bytes, hbytes⟩ := exists_bytes_of_load h t ht
  obtain ⟨name, -, rfl⟩ := Option.map_eq_some_iff.1 hbytes
  rfl

end Discovery

namespace Selection

theorem disabled_of_mem_apply {s : Selection} {tables : List Table}
    (h : ∀ t ∈ tables, t.disabled = false) :
    ∀ t ∈ s.apply tables, t.disabled = !s.enables t.names.text := by
  intro t ht
  obtain ⟨u, hu, rfl⟩ := List.mem_map.1 ht
  cases hout : s.rulesOut u with
  | true =>
    rw [if_pos rfl]
    exact hout.symm
  | false =>
    rw [if_neg Bool.false_ne_true, h u hu]
    exact hout.symm

theorem map_names_apply (s : Selection) (tables : List Table) :
    (s.apply tables).map (·.names) = tables.map (·.names) := by
  rw [apply, List.map_map]
  refine List.map_congr_left fun t _ => ?_
  rw [Function.comp_apply]
  split <;> rfl

theorem namedApart_apply (s : Selection) {tables : List Table} (h : NamedApart tables) :
    NamedApart (s.apply tables) where
  nodup := by
    have hnames := congrArg (List.map TableName.text) (s.map_names_apply tables)
    rw [List.map_map, List.map_map] at hnames
    exact hnames.symm ▸ h.nodup
  isWord t ht := by
    have hmem : t.names ∈ tables.map (·.names) :=
      s.map_names_apply tables ▸ List.mem_map_of_mem ht
    obtain ⟨u, hu, heq⟩ := List.mem_map.1 hmem
    exact heq ▸ h.isWord u hu

end Selection

end SchemaModels
