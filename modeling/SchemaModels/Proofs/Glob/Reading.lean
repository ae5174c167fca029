import SchemaModels.Glob.Walk
import SchemaModels.Proofs.Disk.Walk
import SchemaModels.Proofs.Text.Parts

namespace SchemaModels.Glob

variable {p ts : Pattern} {token : Token} {name : String} {cs rest : List Char}
  {fuel length : Nat} {starts : Bool}

theorem of_classBody?_eq_some {cs body rest : List Char} (h : classBody? cs = some (body, rest)) :
    rest <:+ cs := by
  cases cs with
  | nil => cases h
  | cons c cs =>
    rw [classBody?] at h
    split at h
    · cases h
    · rename_i bracket rest' hdrop
      cases h
      have hsuffix : bracket :: rest <:+ cs := hdrop ▸ List.dropWhile_suffix (· != ']')
      exact ((List.suffix_cons bracket rest).trans hsuffix).trans (List.suffix_cons c cs)

theorem of_class?_eq_some {cs rest : List Char} {token : Token}
    (h : class? cs = some (token, rest)) :
    (∃ rs, token = .oneOf rs ∨ token = .noneOf rs) ∧ rest <:+ cs := by
  unfold class? at h
  split at h
  all_goals
    obtain ⟨⟨body, rest'⟩, hbody, heq⟩ := Option.map_eq_some_iff.1 h
    cases heq
    have hsuffix := of_classBody?_eq_some hbody
  · exact ⟨⟨_, .inr rfl⟩, hsuffix.trans (List.suffix_cons _ _)⟩
  · exact ⟨⟨_, .inl rfl⟩, hsuffix⟩

/-- What a pattern is made of. A component starts at the front or behind a slash. -/
inductive Reads : Bool → List Char → Pattern → Prop
  | done {starts : Bool} : Reads starts [] []
  | directories : Reads true ['*', '*'] [.anyDirectories]
  | directory {cs : List Char} {ts : Pattern} (h : Reads true cs ts) :
    Reads true ('*' :: '*' :: '/' :: cs) (.anyDirectories :: ts)
  | sequence {starts : Bool} {cs : List Char} {ts : Pattern} (hone : cs.head? ≠ some '*')
    (h : Reads false cs ts) : Reads starts ('*' :: cs) (.anySequence :: ts)
  | single {starts : Bool} {cs : List Char} {ts : Pattern} (h : Reads false cs ts) :
    Reads starts ('?' :: cs) (.anyChar :: ts)
  | oneOf {starts : Bool} {cs rest : List Char} {token : Token} {ts : Pattern}
    (hclass : class? cs = some (token, rest)) (h : Reads false rest ts) :
    Reads starts ('[' :: cs) (token :: ts)
  | char {starts : Bool} {c : Char} {cs : List Char} {ts : Pattern}
    (hc : c ≠ '*' ∧ c ≠ '?' ∧ c ≠ '[') (h : Reads (c == '/') cs ts) :
    Reads starts (c :: cs) (.char c :: ts)

theorem exists_of_bind_cons {x : Except PatternError Pattern}
    (h : (do return token :: (← x)) = Except.ok ts) :
    ∃ rest, x = .ok rest ∧ ts = token :: rest := by
  obtain ⟨rest, hrest, hts⟩ := bind_eq_ok.1 h
  cases hts
  exact ⟨rest, hrest, rfl⟩

theorem reads_of_tokens (h : tokens length fuel starts cs = .ok ts) (hfuel : cs.length ≤ fuel) :
    Reads starts cs ts := by
  -- Along the reader, which takes no more fuel than it takes characters.
  fun_induction tokens length fuel starts cs generalizing ts with
  | case1 =>
    cases List.eq_nil_of_length_eq_zero (Nat.le_zero.1 hfuel)
    cases h
    exact .done
  | case2 =>
    cases h
    exact .done
  | case3 | case4 | case7 => cases h
  | case5 =>
    cases h
    simp_all [Reads.directories]
  | case6 _ _ hstarts _ _ ih =>
    obtain ⟨ts, hts, rfl⟩ := exists_of_bind_cons h
    have hread := ih hts (by simp at hfuel; omega)
    simp only [Bool.not_eq_true', Bool.not_eq_false] at hstarts
    exact hstarts ▸ .directory hread
  | case8 _ _ cs _ hone ih =>
    obtain ⟨ts, hts, rfl⟩ := exists_of_bind_cons h
    refine .sequence ?_ (ih hts (Nat.le_of_succ_le_succ hfuel))
    intro hhead
    obtain ⟨rest, rfl⟩ := List.head?_eq_some_iff.1 hhead
    exact hone rest rfl
  | case9 _ _ _ ih =>
    obtain ⟨ts, hts, rfl⟩ := exists_of_bind_cons h
    exact .single (ih hts (Nat.le_of_succ_le_succ hfuel))
  | case10 =>
    rename_i hclass
    rw [hclass] at h
    cases h
  | case11 =>
    rename_i hclass ih
    rw [hclass] at h
    obtain ⟨ts, hts, rfl⟩ := exists_of_bind_cons h
    have hlength := (of_class?_eq_some hclass).2.length_le
    exact .oneOf hclass (ih hts (hlength.trans (Nat.le_of_succ_le_succ hfuel)))
  | case12 _ _ _ _ hstar hmark hbracket _ _ ih =>
    obtain ⟨ts, hts, rfl⟩ := exists_of_bind_cons h
    exact .char ⟨hstar, hmark, hbracket⟩ (ih hts (Nat.le_of_succ_le_succ hfuel))

theorem Reads.tokens (h : Reads starts cs ts) (length : Nat) (hfuel : cs.length ≤ fuel) :
    tokens length fuel starts cs = .ok ts := by
  induction h generalizing fuel with
  | done => cases fuel <;> rfl
  | directories =>
    obtain ⟨fuel, rfl⟩ := Nat.exists_eq_add_one_of_ne_zero (Nat.ne_zero_of_lt hfuel)
    rfl
  | directory _ ih =>
    obtain ⟨fuel, rfl⟩ := Nat.exists_eq_add_one_of_ne_zero (Nat.ne_zero_of_lt hfuel)
    have hshort := Nat.le_of_lt (Nat.lt_of_succ_lt (Nat.lt_of_succ_le hfuel))
    simp [Glob.tokens, ih (Nat.le_of_succ_le_succ hshort), bind, Except.bind, pure, Except.pure]
  | @sequence starts cs ts hone _ ih =>
    obtain ⟨fuel, rfl⟩ := Nat.exists_eq_add_one_of_ne_zero (Nat.ne_zero_of_lt hfuel)
    have hrest := ih (Nat.le_of_succ_le_succ hfuel)
    rw [Glob.tokens, hrest]
    · rfl
    · rintro tail rfl
      exact hone rfl
    · rintro tail rfl
      exact hone rfl
  | single _ ih =>
    obtain ⟨fuel, rfl⟩ := Nat.exists_eq_add_one_of_ne_zero (Nat.ne_zero_of_lt hfuel)
    rw [Glob.tokens, ih (Nat.le_of_succ_le_succ hfuel)]
    rfl
  | oneOf hclass _ ih =>
    obtain ⟨fuel, rfl⟩ := Nat.exists_eq_add_one_of_ne_zero (Nat.ne_zero_of_lt hfuel)
    have hlength := (of_class?_eq_some hclass).2.length_le
    rw [Glob.tokens, hclass]
    dsimp only
    rw [ih (hlength.trans (Nat.le_of_succ_le_succ hfuel))]
    rfl
  | char hc _ ih =>
    obtain ⟨fuel, rfl⟩ := Nat.exists_eq_add_one_of_ne_zero (Nat.ne_zero_of_lt hfuel)
    obtain ⟨hstar, hmark, hbracket⟩ := hc
    rw [Glob.tokens, ih (Nat.le_of_succ_le_succ hfuel)]
    · rfl
    all_goals simp_all

/-- The reader takes a pattern apart as `Reads` says, if its fuel is enough. -/
theorem parse_eq_ok : parse cs = .ok ts ↔ Reads true cs ts :=
  ⟨fun h => reads_of_tokens h (Nat.le_refl _), fun h => h.tokens _ (Nat.le_refl _)⟩

theorem Reads.of_anyDirectories_mem (h : Reads starts cs ts) (hslash : '/' ∉ cs)
    (hmem : .anyDirectories ∈ ts) : starts = true ∧ cs = ['*', '*'] := by
  -- Behind a character that is no slash no component starts, so that the rest has no double star.
  induction h with
  | done => cases hmem
  | directories => exact ⟨rfl, rfl⟩
  | directory => simp at hslash
  | sequence _ _ ih | single _ ih =>
    have hrest := ih (fun h => hslash (List.mem_cons_of_mem _ h)) (by simpa using hmem)
    cases hrest.1
  | @oneOf _ _ _ token _ hclass _ ih =>
    obtain ⟨⟨rs, htoken⟩, hsuffix⟩ := of_class?_eq_some hclass
    have hne : .anyDirectories ≠ token := by rcases htoken with rfl | rfl <;> simp
    have hrest := ih (fun h => hslash (List.mem_cons_of_mem _ (hsuffix.subset h)))
      ((List.mem_cons.1 hmem).resolve_left hne)
    cases hrest.1
  | char _ _ ih =>
    rw [List.mem_cons, not_or] at hslash
    have hrest := ih hslash.2 (by simpa using hmem)
    exact absurd (beq_iff_eq.1 hrest.1).symm hslash.1

theorem isRecursive_of_parse (h : parse cs = .ok p) (hslash : '/' ∉ cs) (hstars : cs ≠ ['*', '*']) :
    isRecursive p = false := by
  rw [isRecursive, ← Bool.not_eq_true, List.contains_iff_mem]
  exact fun hmem => hstars ((parse_eq_ok.1 h).of_anyDirectories_mem hslash hmem).2

theorem ne_nil_of_parse (h : parse cs = .ok p) (hne : cs ≠ []) : p ≠ [] := by
  have hreads := parse_eq_ok.1 h
  cases hreads with
  | done => exact absurd rfl hne
  | _ => exact List.cons_ne_nil _ _

theorem mapM_char?_eq_some : p.mapM Token.char? = some cs ↔ p = cs.map .char := by
  induction p generalizing cs with
  | nil => cases cs <;> simp
  | cons token p ih =>
    rw [List.mapM_cons]
    cases token with
    | char c => cases cs <;> simp [Token.char?, Option.bind_eq_some_iff, ih, and_comm]
    | _ => cases cs <;> simp [Token.char?]

theorem literal?_eq_some : literal? p = some name ↔ p = name.toList.map .char := by
  rw [literal?, Option.map_eq_some_iff]
  constructor
  · rintro ⟨cs, hcs, rfl⟩
    rw [String.toList_ofList]
    exact mapM_char?_eq_some.1 hcs
  · exact fun h => ⟨name.toList, mapM_char?_eq_some.2 h, String.ofList_toList⟩

theorem isRecursive_of_literal (hp : literal? p = some name) : isRecursive p = false := by
  rw [literal?_eq_some.1 hp]
  simp [isRecursive]

/-- The name that a pattern spells out has no slash in it. -/
def SlashFree (p : Pattern) : Prop := ∀ s, literal? p = some s → '/' ∉ s.toList

theorem Reads.mem_of_char_mem {c : Char} (h : Reads starts cs ts) (hc : .char c ∈ ts) : c ∈ cs := by
  induction h with
  | done => cases hc
  | directories => simp at hc
  | directory _ ih => simp [ih (by simpa using hc)]
  | sequence _ _ ih | single _ ih => exact List.mem_cons_of_mem _ (ih (by simpa using hc))
  | oneOf hclass _ ih =>
    obtain ⟨⟨rs, htoken⟩, hsuffix⟩ := of_class?_eq_some hclass
    rcases List.mem_cons.1 hc with heq | hmem
    · rcases htoken with rfl | rfl <;> cases heq
    · exact List.mem_cons_of_mem _ (hsuffix.subset (ih hmem))
  | char _ _ ih =>
    rcases List.mem_cons.1 hc with heq | hmem
    · cases heq
      exact List.mem_cons_self
    · exact List.mem_cons_of_mem _ (ih hmem)

theorem slashFree_of_parse (h : '/' ∉ cs) (hp : parse cs = .ok p) : SlashFree p := by
  intro s hs hslash
  refine h ((parse_eq_ok.1 hp).mem_of_char_mem ?_)
  rw [literal?_eq_some.1 hs]
  exact List.mem_map_of_mem hslash

theorem Query.slashFree {q : Query} {cs : List Char} (h : Query.ofChars cs = .ok q) :
    ∀ p ∈ q.patterns, SlashFree p := by
  obtain ⟨_, -, h⟩ := bind_eq_ok.1 h
  obtain ⟨patterns, hpatterns, h⟩ := bind_eq_ok.1 h
  have hsub (pieces : List (List Char)) :
      (if pieces.getLast? = some [] then pieces.dropLast else pieces) ⊆ pieces := by
    split
    · exact List.dropLast_subset pieces
    · exact List.Subset.refl pieces
  have hall : ∀ p ∈ patterns, SlashFree p := by
    intro p hp
    obtain ⟨piece, hpiece, hparse⟩ := exists_of_forall₂ (mapM_eq_ok.1 hpatterns) hp
    exact slashFree_of_parse (Text.notMem_of_mem_splitOn (hsub _ hpiece)) hparse
  have hclosed (empty : Bool) :
      ∀ p ∈ if empty then patterns ++ [[]] else patterns, SlashFree p := by
    intro p hp
    split at hp
    · rcases List.mem_append.1 hp with hp | hp
      · exact hall p hp
      · rw [List.mem_singleton.1 hp]
        rintro _ ⟨rfl⟩
        decide
    · exact hall p hp
  cases h
  exact hclosed _

end SchemaModels.Glob
