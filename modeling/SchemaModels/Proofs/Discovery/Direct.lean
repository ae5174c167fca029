import SchemaModels.Proofs.Discovery.EntryPath
import SchemaModels.Proofs.Discovery.Sorted

namespace SchemaModels.Discovery

open Disk Glob
open Text (splitOn)

variable {d : Disk} {dir : Path} {pattern : String} {p : Pattern}

theorem head?_fullPattern_ne (hrelative : dir.isAbsolute = false) (hdir : dir.text ≠ "") :
    (fullPattern dir pattern).head? ≠ some '/' := by
  cases hcs : dir.text.toList with
  | nil => exact absurd (String.toList_eq_nil_iff.1 hcs) hdir
  | cons c cs =>
    rw [Path.isAbsolute, hcs, List.head?_cons, beq_eq_false_iff_ne] at hrelative
    rw [fullPattern, hcs, escape_cons]
    split
    · simp
    · exact hrelative

theorem splitOn_fullPattern (hrelative : dir.isAbsolute = false) (hslash : '/' ∉ pattern.toList) :
    splitOn '/' (fullPattern dir pattern) = dir.pieces.map escape ++ [pattern.toList] := by
  have hpieces : dir.pieces = splitOn '/' dir.text.toList := by
    rw [Path.pieces, hrelative]
    rfl
  rw [fullPattern, Text.splitOn_append_cons, splitOn_escape, Text.splitOn_of_notMem hslash, hpieces]

theorem ofChars_fullPattern (hrelative : dir.isAbsolute = false) (hdir : dir.text ≠ "")
    (hpattern : IsPlainName pattern) (hp : parse pattern.toList = .ok p) :
    Query.ofChars (fullPattern dir pattern) =
      .ok ⟨⟨"."⟩, spelledNames (pieceNames dir) ++ [p], false⟩ := by
  have hparse : parse (fullPattern dir pattern) = .ok _ := parse_escape_slash _ hp
  have hstarts : ((fullPattern dir pattern).head? == some '/') = false :=
    beq_eq_false_iff_ne.2 (head?_fullPattern_ne hrelative hdir)
  have hends : ((fullPattern dir pattern).getLast? == some '/') = false :=
    beq_eq_false_iff_ne.2 (getLast?_ne_slash hpattern.noSlash hpattern.ne_empty _)
  have hlast : (dir.pieces.map escape ++ [pattern.toList]).getLast? ≠ some [] := by
    simpa using hpattern.notEmpty
  have hpatterns : (dir.pieces.map escape ++ [pattern.toList]).mapM parse =
      .ok (spelledNames (pieceNames dir) ++ [p]) := by
    rw [mapM_eq_ok]
    refine List.rel_append ?_ (.cons hp .nil)
    rw [spelledNames, pieceNames, List.map_map, List.forall₂_map_left_iff,
      List.forall₂_map_right_iff]
    refine List.forall₂_same.2 fun piece _ => ?_
    rw [Function.comp_apply, String.toList_ofList, parse_escape]
  have hsome : (fullPattern dir pattern).isEmpty = false := by simp [fullPattern]
  unfold Query.ofChars
  rw [hparse]
  simp only [hstarts, Bool.false_eq_true, if_false, splitOn_fullPattern hrelative hpattern.noSlash,
    if_neg hlast, hpatterns, hsome, hends, bind, Except.bind, pure, Except.pure]

/-- The search ends at the files in the directory whose names the pattern describes. -/
theorem leads_direct_iff (dir : Path) (hd : d.IsTree) (hne : p ≠ []) (hslash : SlashFree p)
    (hp : isRecursive p = false) (t : List Step) (path : Path) :
    Leads d false ⟨"."⟩ (spelledNames (pieceNames dir) ++ [p]) t path ∧ d.isFile path = true ↔
      ¬ HasGap dir ∧ ∃ n, IsPlainName n ∧ accepts p n.toList = true ∧
        t = (pieceNames dir).map (⟨·, false⟩) ++ [⟨n, false⟩] ∧ path = entryPath dir n ∧
        d.isFile path = true := by
  by_cases hgap : HasGap dir
  · have hnone : ¬ Leads d false ⟨"."⟩ (spelledNames (pieceNames dir) ++ [p]) t path :=
      not_leads_of_empty (List.cons_ne_nil p []) hgap
    simp [hgap, hnone]
  · have hgoes := goesDown_here (noSlash_of_mem_pieceNames dir) hgap
    rw [leads_names_file_iff hd hgoes hne hslash hp, and_iff_right hgap]
    refine exists_congr fun n => and_congr_right fun hn => ?_
    rw [below_foldl_pieceNames hgap hn.noSlash]

/-- By a pattern of one component exactly the files are found that lie directly in the directory
and have a name that the pattern describes, in the order of their paths and each once. Nothing is
found in another directory, even if the name of this one, taken as a pattern, describes it. With a
slash too many behind the dots in front of the directory, nothing is found. -/
theorem find_direct (hd : d.IsTree) (hrelative : dir.isAbsolute = false) (hdir : dir.text ≠ "")
    (hpattern : IsPlainName pattern) (hstars : pattern ≠ "**")
    (hp : parse pattern.toList = .ok p) :
    ∃ paths, Path.Increasing paths ∧
      (∀ path, path ∈ paths ↔ ¬ HasGap dir ∧ ∃ name, path = entryPath dir name ∧
        HoldsFile d dir name ∧ accepts p name.toList = true ∧
        InLimits (entryPath dir name) name) ∧
      find d dir pattern = if paths = [] then .error (.noMigrations dir.text) else .ok paths := by
  have hq := ofChars_fullPattern hrelative hdir hpattern hp
  have hfiles :=
    enumerates_files hd.toWellNamed ⟨⟨"."⟩, spelledNames (pieceNames dir) ++ [p], false⟩
  have hrecursive : isRecursive p = false :=
    isRecursive_of_parse hp hpattern.noSlash fun heq => hstars (String.toList_injective heq)
  have hleads := leads_direct_iff dir hd (ne_nil_of_parse hp hpattern.notEmpty)
    (slashFree_of_parse hpattern.noSlash hp) hrecursive
  refine ⟨_, ?_, ?_, find_eq hq⟩
  · rw [Path.increasing_mergeSort_iff, hfiles.nodup_map_iff]
    intro t t' path path' ht ht' heq
    obtain ⟨hgap, n, hn, -, rfl, rfl, -⟩ := (hleads t path).1 ht
    obtain ⟨-, n', hn', -, rfl, rfl, -⟩ := (hleads t' path').1 ht'
    -- Paths that look the same end in the same name, and the names are the trails.
    rw [← below_foldl_pieceNames hgap hn.noSlash, ← below_foldl_pieceNames hgap hn'.noSlash] at heq
    have hnames : some n = some n' := by
      rw [← fileName?_below _ hn, ← fileName?_below _ hn', Path.fileName?, heq, Path.fileName?]
    cases hnames
    exact ⟨rfl, rfl⟩
  · intro path
    rw [List.mem_mergeSort, hfiles.mem_iff]
    constructor
    · rintro ⟨t, ht⟩
      obtain ⟨hgap, n, hn, ha, -, rfl, hfile⟩ := (hleads t path).1 ht
      obtain ⟨hholds, hlimits⟩ := (isFile_entryPath_iff hd hrelative hgap hn).1 hfile
      exact ⟨hgap, n, rfl, hholds, ha, hlimits⟩
    · rintro ⟨hgap, n, rfl, hholds, ha, hlimits⟩
      have hn : IsPlainName n := by
        obtain ⟨loc, bytes, -, hbytes⟩ := hholds
        have hthere : (d.get? (n :: loc)).isSome = true := by simp [hbytes]
        exact hd.isPlainName (mem_children_iff.2 hthere)
      have hfile := (isFile_entryPath_iff hd hrelative hgap hn).2 ⟨hholds, hlimits⟩
      exact ⟨_, (hleads _ _).2 ⟨hgap, n, hn, ha, rfl, rfl, hfile⟩⟩

/-- A directory with wildcards in its name, which describes the name of the other one. -/
def wildcardsDisk : Disk where
  entries := [(["w[1]*"], .dir), (["2.sql", "w[1]*"], .file []), (["old.sql", "w[1]*"], .dir),
    (["3.sql", "old.sql", "w[1]*"], .file []), (["w1"], .dir), (["4.sql", "w1"], .file [])]
  work := []
  tempCount := 0

theorem wildcardsDisk_find : wildcardsDisk.IsTree ∧ (⟨"./w[1]*//"⟩ : Path).isAbsolute = false ∧
    (⟨"./w[1]*//"⟩ : Path).text ≠ "" ∧ ¬ HasGap ⟨"./w[1]*//"⟩ ∧ IsPlainName "*.sql" ∧
    (∃ p, parse "*.sql".toList = .ok p ∧ accepts p "2.sql".toList = true) ∧
    ∃ paths, find wildcardsDisk ⟨"./w[1]*//"⟩ "*.sql" = .ok paths ∧ ⟨"w[1]*/2.sql"⟩ ∈ paths ∧
      ∀ path ∈ paths, ∃ name, path = entryPath ⟨"./w[1]*//"⟩ name ∧
        HoldsFile wildcardsDisk ⟨"./w[1]*//"⟩ name := by
  have htree : wildcardsDisk.IsTree := by decide +kernel
  have hrelative : (⟨"./w[1]*//"⟩ : Path).isAbsolute = false := by decide
  have hdir : (⟨"./w[1]*//"⟩ : Path).text ≠ "" := by decide
  have hgap : ¬ HasGap ⟨"./w[1]*//"⟩ := by rw [HasGap]; decide
  have hpattern : IsPlainName "*.sql" := by decide
  have haccepts : accepts [.anySequence, .char '.', .char 's', .char 'q', .char 'l']
      "2.sql".toList = true := by decide
  obtain ⟨paths, -, hmem, hfind⟩ := find_direct htree hrelative hdir hpattern (by decide) rfl
  have htwo : ⟨"w[1]*/2.sql"⟩ ∈ paths :=
    (hmem _).2 ⟨hgap, "2.sql", by decide, ⟨["w[1]*"], [], rfl, rfl⟩, haccepts, rfl, by decide⟩
  rw [if_neg (List.ne_nil_of_mem htwo)] at hfind
  refine ⟨htree, hrelative, hdir, hgap, hpattern, ⟨_, rfl, haccepts⟩, paths, hfind, htwo, ?_⟩
  intro path hpath
  obtain ⟨-, name, hname, hholds, -⟩ := (hmem path).1 hpath
  exact ⟨name, hname, hholds⟩

def looseDisk : Disk where
  entries := [(["1.sql"], .file (Text.encode "CREATE TABLE a (\n id int\n)".toList))]
  work := []
  tempCount := 0

/-- Where the work is done, nothing is found if the directory is written with a slash at its end. -/
theorem find_not_direct : ¬ ∀ (d : Disk) (dir : Path) (pattern : String) (p : Pattern)
    (name : String), d.IsTree → dir.isAbsolute = false → dir.text ≠ "" → IsPlainName pattern →
      pattern ≠ "**" → parse pattern.toList = .ok p → HoldsFile d dir name →
      accepts p name.toList = true → InLimits (dir.join name) name →
      ∃ paths, find d dir pattern = .ok paths := by
  intro h
  have hholds : HoldsFile looseDisk ⟨"./"⟩ "1.sql" := ⟨[], _, rfl, rfl⟩
  obtain ⟨paths, hfind⟩ := h looseDisk ⟨"./"⟩ "*.sql" _ "1.sql" (by decide +kernel) (by decide)
    (by decide) (by decide) (by decide) rfl hholds (by decide +kernel) ⟨rfl, by decide⟩
  have hnone : find looseDisk ⟨"./"⟩ "*.sql" = .error (.noMigrations "./") :=
    find_eq_noMigrations (by decide +kernel)
  cases hnone.symm.trans hfind

end SchemaModels.Discovery
