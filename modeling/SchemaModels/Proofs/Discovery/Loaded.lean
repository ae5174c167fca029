import SchemaModels.Proofs.Discovery.Sorted

namespace SchemaModels

namespace Discovery

def Holds (d : Disk) (path : Path) (t : Table) : Prop :=
  ∃ bytes, d.read path = .ok bytes ∧ Ddl.tableOfBytes? bytes = some t

inductive Refuses (d : Disk) (path : Path) : Failure → Prop where
  | unread {cause : Cause} (h : d.read path = .error cause) : Refuses d path (.read path cause)
  | unnamed {bytes : Text.Bytes} (h : d.read path = .ok bytes)
      (hname : Ddl.tableNameChars? (Text.decodeLossy bytes) = none) :
      Refuses d path (.tableNameNotFound path.text)

/-- At `j` an entry is the first to come again, and `i` is the only place above where it stands. -/
structure IsFirstRepeat (keys : List String) (i j : Nat) : Prop where
  lt : i < j
  lt_length : j < keys.length
  eq : keys[i]? = keys[j]?
  only : ∀ k < j, keys[k]? = keys[j]? → k = i
  least : ∀ l < j, ∀ k < l, keys[k]? ≠ keys[l]?

/-- What loading files gives. -/
inductive Loads (d : Disk) (paths : List Path) : Except Failure (List Table) → Prop where
  | refused {above below : List Path} {path : Path} {failure : Failure}
      (hpaths : paths = above ++ path :: below) (habove : ∀ p ∈ above, ∃ t, Holds d p t)
      (hfailure : Refuses d path failure) : Loads d paths (.error failure)
  | empty (hpaths : paths = []) : Loads d paths (.error (.noMigrations "<no files>"))
  | repeated {tables : List Table} {i j : Nat} {first second : Path} {t : Table}
      (hread : List.Forall₂ (Holds d) paths tables)
      (hrepeat : IsFirstRepeat (tables.map tableKey) i j) (hfirst : paths[i]? = some first)
      (hsecond : paths[j]? = some second) (ht : tables[j]? = some t) :
      Loads d paths (.error (.duplicateTable t.names.text first second))
  | loaded {tables : List Table} (hpaths : paths ≠ [])
      (hread : List.Forall₂ (Holds d) paths tables) (hapart : (tables.map tableKey).Nodup) :
      Loads d paths (.ok tables)

theorem readTable_eq_error {d : Disk} {path : Path} {failure : Failure} :
    readTable d path = .error failure ↔ Refuses d path failure := by
  rw [readTable, bind_eq_error]
  constructor
  · intro h
    rcases h with h | ⟨bytes, hbytes, h⟩
    · cases hread : d.read path with
      | error cause =>
        rw [hread] at h
        cases h
        exact .unread hread
      | ok bytes =>
        rw [hread] at h
        cases h
    · split at h
      · cases h
      · rename_i hnone
        cases h
        exact .unnamed (mapError_eq_ok.1 hbytes) (Option.map_eq_none_iff.1 hnone)
  · intro h
    cases h with
    | unread h =>
      rw [h]
      exact .inl rfl
    | @unnamed bytes h hname =>
      have hnone : Ddl.tableOfBytes? bytes = none := Option.map_eq_none_iff.2 hname
      refine .inr ⟨bytes, mapError_eq_ok.2 h, ?_⟩
      rw [hnone]

theorem holds_iff {d : Disk} {path : Path} {t : Table} :
    Holds d path t ↔ readTable d path = .ok t := readTable_eq_ok.symm

theorem isFirstRepeat_append {keys : List String} {i j : Nat} (h : IsFirstRepeat keys i j)
    (key : String) : IsFirstRepeat (keys ++ [key]) i j := by
  have hlt := h.lt
  have hlen := h.lt_length
  have hkeep {k : Nat} (hk : k ≤ j) : (keys ++ [key])[k]? = keys[k]? :=
    List.getElem?_append_left (Nat.lt_of_le_of_lt hk hlen)
  refine ⟨hlt, ?_, ?_, ?_, ?_⟩
  · rw [List.length_append]
    omega
  · rw [hkeep hlt.le, hkeep le_rfl, h.eq]
  · intro k hk
    rw [hkeep hk.le, hkeep le_rfl]
    exact h.only k hk
  · intro l hl k hk
    rw [hkeep hl.le, hkeep (hk.le.trans hl.le)]
    exact h.least l hl k hk

theorem isFirstRepeat_concat {keys : List String} {i : Nat} {key : String} (h : keys.Nodup)
    (hi : keys[i]? = some key) : IsFirstRepeat (keys ++ [key]) i keys.length := by
  have hlt : i < keys.length := (List.getElem?_eq_some_iff.1 hi).1
  have hkeep {k : Nat} (hk : k < keys.length) : (keys ++ [key])[k]? = keys[k]? :=
    List.getElem?_append_left hk
  have hlast : (keys ++ [key])[keys.length]? = some key := List.getElem?_concat_length
  refine ⟨hlt, ?_, ?_, ?_, ?_⟩
  · simp
  · rw [hkeep hlt, hlast, hi]
  · intro k hk heq
    rw [hkeep hk, hlast, ← hi] at heq
    exact (List.getElem?_inj hk h).1 heq
  · intro l hl k hk
    rw [hkeep hl, hkeep (hk.trans hl)]
    exact List.nodup_iff_getElem?_ne_getElem?.1 h k l hk hl

theorem nodup_or_isFirstRepeat (keys : List String) :
    keys.Nodup ∨ ∃ i j, IsFirstRepeat keys i j := by
  induction keys using List.reverseRecOn with
  | nil => exact .inl List.nodup_nil
  | append_singleton keys key ih =>
    rcases ih with hnodup | ⟨i, j, h⟩
    · by_cases hmem : key ∈ keys
      · obtain ⟨i, hi⟩ := List.mem_iff_getElem?.1 hmem
        exact .inr ⟨i, keys.length, isFirstRepeat_concat hnodup hi⟩
      · exact .inl (List.concat_eq_append ▸ hnodup.concat hmem)
    · exact .inr ⟨i, j, isFirstRepeat_append h key⟩

/-- What `duplicate?` keeps of the tables that it has passed. -/
def seenIn (front : List (Path × Table)) : List (String × Path) :=
  (front.map fun x => (tableKey x.2, x.1)).reverse

theorem lookup_seenIn_eq_none {front : List (Path × Table)} {key : String}
    (h : key ∉ front.map (tableKey ·.2)) : (seenIn front).lookup key = none := by
  rw [List.lookup_eq_none_iff]
  intro entry hentry
  rw [seenIn, List.mem_reverse] at hentry
  obtain ⟨x, hx, rfl⟩ := List.mem_map.1 hentry
  have hne : key ≠ tableKey x.2 := fun heq => h (heq ▸ List.mem_map_of_mem hx)
  simpa using hne

theorem lookup_seenIn {front : List (Path × Table)} {x : Path × Table}
    (h : (front.map (tableKey ·.2)).Nodup) (hx : x ∈ front) :
    (seenIn front).lookup (tableKey x.2) = some x.1 := by
  cases hlookup : (seenIn front).lookup (tableKey x.2) with
  | none =>
    have hmem : (tableKey x.2, x.1) ∈ seenIn front :=
      List.mem_reverse.2 (List.mem_map_of_mem hx)
    have hne := List.lookup_eq_none_iff.1 hlookup _ hmem
    simp at hne
  | some path =>
    obtain ⟨_, _, hseen, -⟩ := List.lookup_eq_some_iff.1 hlookup
    have hmem : (tableKey x.2, path) ∈ seenIn front := by
      rw [hseen]
      simp
    obtain ⟨y, hy, heq⟩ := List.mem_map.1 (List.mem_reverse.1 hmem)
    rw [Prod.mk.injEq] at heq
    rw [← heq.2, List.inj_on_of_nodup_map h hy hx heq.1]

theorem duplicate?_append {front : List (Path × Table)} (h : (front.map (tableKey ·.2)).Nodup)
    (rest : List (Path × Table)) :
    duplicate? [] (front ++ rest) = duplicate? (seenIn front) rest := by
  induction front using List.reverseRecOn generalizing rest with
  | nil => rfl
  | append_singleton front x ih =>
    rw [List.map_append, List.map_singleton, ← List.concat_eq_append, List.nodup_concat] at h
    obtain ⟨hfresh, hnodup⟩ := h
    rw [List.append_assoc, ih hnodup, List.singleton_append, duplicate?,
      lookup_seenIn_eq_none hfresh]
    simp [seenIn]

theorem duplicate?_eq_none {xs : List (Path × Table)} (h : (xs.map (tableKey ·.2)).Nodup) :
    duplicate? [] xs = none := by
  have happend := duplicate?_append h []
  rw [List.append_nil] at happend
  rw [happend, duplicate?]

theorem IsFirstRepeat.nodup_take {keys : List String} {i j : Nat} (h : IsFirstRepeat keys i j) :
    (keys.take j).Nodup := by
  rw [List.nodup_iff_getElem?_ne_getElem?]
  intro k l hkl hl
  rw [List.length_take, Nat.lt_min] at hl
  rw [List.getElem?_take_of_lt hl.1, List.getElem?_take_of_lt (hkl.trans hl.1)]
  exact h.least l hl.1 k hkl

/-- The table of the first repeat is reported, with the file above that has its key. -/
theorem duplicate?_eq_some {xs : List (Path × Table)} {i j : Nat} {first second : Path}
    {t u : Table} (h : IsFirstRepeat (xs.map (tableKey ·.2)) i j) (hi : xs[i]? = some (first, u))
    (hj : xs[j]? = some (second, t)) :
    duplicate? [] xs = some (.duplicateTable t.names.text first second) := by
  have hnodup : ((xs.take j).map (tableKey ·.2)).Nodup := by
    rw [List.map_take]
    exact h.nodup_take
  have hmem : (first, u) ∈ xs.take j := by
    apply List.mem_of_getElem? (i := i)
    rw [List.getElem?_take_of_lt h.lt, hi]
  have hkey : tableKey u = tableKey t := by
    have heq := h.eq
    rw [List.getElem?_map, List.getElem?_map, hi, hj] at heq
    exact Option.some.inj heq
  have hsplit : xs = xs.take j ++ (second, t) :: xs.drop (j + 1) := by
    obtain ⟨hlt, hget⟩ := List.getElem?_eq_some_iff.1 hj
    rw [← hget, ← List.drop_eq_getElem_cons hlt, List.take_append_drop]
  rw [hsplit, duplicate?_append hnodup, duplicate?, ← hkey, lookup_seenIn hnodup hmem]

theorem load_of_mapM {d : Disk} {paths : List Path} {tables : List Table}
    (h : paths.mapM (readTable d) = .ok tables) (hne : tables ≠ []) :
    load d paths =
      match duplicate? [] (paths.zip tables) with
      | some failure => .error failure
      | none => .ok tables := by
  have hempty : ¬ tables.isEmpty = true := by simpa using hne
  rw [load_eq, h]
  exact if_neg hempty

theorem load_of_loads {d : Disk} {paths : List Path} {result : Except Failure (List Table)}
    (h : Loads d paths result) : load d paths = result := by
  have hmapM {tables : List Table} (hread : List.Forall₂ (Holds d) paths tables) :
      paths.mapM (readTable d) = .ok tables :=
    mapM_eq_ok.2 (hread.imp fun _ _ => holds_iff.1)
  cases h with
  | @refused above below path failure hpaths habove hfailure =>
    have hread : paths.mapM (readTable d) = .error failure := by
      refine mapM_eq_error.2 ⟨above, path, below, hpaths, ?_, readTable_eq_error.2 hfailure⟩
      intro p hp
      obtain ⟨t, ht⟩ := habove p hp
      exact ⟨t, holds_iff.1 ht⟩
    rw [load_eq, hread]
    rfl
  | empty hpaths =>
    rw [hpaths]
    rfl
  | @repeated tables i j first second t hread hrepeat hfirst hsecond ht =>
    have hlen : paths.length = tables.length := hread.length_eq
    have hi : i < tables.length :=
      hrepeat.lt.trans (List.getElem?_eq_some_iff.1 ht).1
    have hu : tables[i]? = some tables[i] := List.getElem?_eq_getElem hi
    rw [← map_tableKey_zip hlen.ge] at hrepeat
    have hne : tables ≠ [] := by
      rintro rfl
      cases ht
    rw [load_of_mapM (hmapM hread) hne, duplicate?_eq_some hrepeat
      (List.getElem?_zip_eq_some.2 ⟨hfirst, hu⟩) (List.getElem?_zip_eq_some.2 ⟨hsecond, ht⟩)]
  | @loaded tables hpaths hread hapart =>
    have hlen : paths.length = tables.length := hread.length_eq
    rw [← map_tableKey_zip hlen.ge] at hapart
    have hne : tables ≠ [] := by
      rintro rfl
      exact hpaths (List.forall₂_nil_right_iff.1 hread)
    rw [load_of_mapM (hmapM hread) hne, duplicate?_eq_none hapart]

theorem exists_loads (d : Disk) (paths : List Path) : ∃ result, Loads d paths result := by
  cases hread : paths.mapM (readTable d) with
  | error failure =>
    obtain ⟨above, path, below, hpaths, habove, hfailure⟩ := mapM_eq_error.1 hread
    refine ⟨_, .refused hpaths ?_ (readTable_eq_error.1 hfailure)⟩
    intro p hp
    obtain ⟨t, ht⟩ := habove p hp
    exact ⟨t, holds_iff.2 ht⟩
  | ok tables =>
    have hholds : List.Forall₂ (Holds d) paths tables :=
      (mapM_eq_ok.1 hread).imp fun _ _ => holds_iff.2
    by_cases hpaths : paths = []
    · exact ⟨_, .empty hpaths⟩
    · rcases nodup_or_isFirstRepeat (tables.map tableKey) with hapart | ⟨i, j, hrepeat⟩
      · exact ⟨_, .loaded hpaths hholds hapart⟩
      · have hj : j < tables.length := List.length_map tableKey ▸ hrepeat.lt_length
        have hlen : paths.length = tables.length := hholds.length_eq
        have hj' : j < paths.length := hlen ▸ hj
        have hi' : i < paths.length := hrepeat.lt.trans hj'
        exact ⟨_, .repeated hholds hrepeat (List.getElem?_eq_getElem hi')
          (List.getElem?_eq_getElem hj') (List.getElem?_eq_getElem hj)⟩

/-- Loading gives exactly what the files say. A file that gives no table decides before all other
failures, the first such file before the others; then no file at all; then the first table whose
name in lower case is that of one above. Otherwise there are the tables of all files, in order. -/
theorem load_eq_iff {d : Disk} {paths : List Path} {result : Except Failure (List Table)} :
    load d paths = result ↔ Loads d paths result := by
  constructor
  · intro h
    obtain ⟨result', hloads⟩ := exists_loads d paths
    rw [← h, load_of_loads hloads]
    exact hloads
  · exact load_of_loads

/-- A file that is missing decides before two tables of one name. -/
example :
    let d : Disk := ⟨[(["1.sql"], .file (Text.encode "CREATE TABLE Straße".toList)),
      (["2.sql"], .file (Text.encode "CREATE TABLE STRAßE".toList))], [], 0⟩
    load d [⟨"1.sql"⟩, ⟨"2.sql"⟩] = .error (.duplicateTable "STRAßE" ⟨"1.sql"⟩ ⟨"2.sql"⟩) ∧
      load d [⟨"1.sql"⟩, ⟨"2.sql"⟩, ⟨"3.sql"⟩] = .error (.read ⟨"3.sql"⟩ .notFound) := by
  decide +kernel

end Discovery

end SchemaModels
