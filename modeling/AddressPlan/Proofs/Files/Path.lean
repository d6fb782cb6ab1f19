import AddressPlan.Files.Path

/-!
What the names in a path are: slashes at its end do not count, the directory a path lies in has the first of its names,
and a longer last name changes nothing before it.
-/

namespace AddressPlan.Path

variable {path parent : String} {cs front back last : List Char}

theorem slash_not_mem : ∀ (cs : List Char), ∀ p ∈ cs.splitOn '/', '/' ∉ p
  | [], p, hp => by
    rw [List.splitOn_nil, List.mem_singleton] at hp
    subst hp
    exact List.not_mem_nil
  | c :: cs, p, hp => by
    rw [List.splitOn_cons_eq_if_modifyHead] at hp
    split at hp
    · rcases List.mem_cons.mp hp with rfl | hp
      · exact List.not_mem_nil
      · exact slash_not_mem cs p hp
    · rename_i hc
      obtain ⟨q, qs, heq⟩ := List.exists_cons_of_ne_nil (List.splitOn_ne_nil '/' cs)
      have hcs := slash_not_mem cs
      rw [heq] at hp hcs
      rw [List.modifyHead_cons] at hp
      rcases List.mem_cons.mp hp with rfl | hp
      · intro hslash
        rcases List.mem_cons.mp hslash with rfl | hslash
        · exact hc (beq_self_eq_true _)
        · exact hcs q List.mem_cons_self hslash
      · exact hcs p (List.mem_cons_of_mem _ hp)

/-- The parts that are not empty. -/
def wordsOf (parts : List (List Char)) : List String :=
  (parts.map String.ofList).filter (· != "")

theorem words_eq (path : String) : words path = wordsOf (path.toList.splitOn '/') := rfl

theorem wordsOf_append (ps qs : List (List Char)) : wordsOf (ps ++ qs) = wordsOf ps ++ wordsOf qs := by
  rw [wordsOf, List.map_append, List.filter_append]
  rfl

theorem wordsOf_nil_cons (ps : List (List Char)) : wordsOf ([] :: ps) = wordsOf ps := rfl

theorem wordsOf_single (hlast : last ≠ []) : wordsOf [last] = [String.ofList last] := by
  have hne : String.ofList last ≠ "" := by
    rw [Ne, ← String.toList_inj, String.toList_ofList]
    exact hlast
  simp [wordsOf, hne]

/-- A path without words is made of slashes. -/
theorem isAbsolute_of_words (hne : path ≠ "") (h : words path = []) : isAbsolute path = true := by
  rw [Ne, ← String.toList_inj] at hne
  rw [words_eq] at h
  rw [isAbsolute]
  cases hcs : path.toList with
  | nil => exact absurd hcs hne
  | cons c cs =>
    rw [hcs, List.splitOn_cons_eq_if_modifyHead] at h
    split at h
    · rename_i hc
      simpa using hc
    · obtain ⟨q, qs, heq⟩ := List.exists_cons_of_ne_nil (List.splitOn_ne_nil '/' cs)
      rw [heq, List.modifyHead_cons, ← List.singleton_append, wordsOf_append, wordsOf_single (List.cons_ne_nil c q)] at h
      cases h

/-! ### Slashes at the end -/

theorem wordsOf_slashes : ∀ {back : List Char}, (∀ c ∈ back, c = '/') → wordsOf (back.splitOn '/') = []
  | [], _ => rfl
  | c :: back, h => by
    obtain ⟨rfl, hback⟩ := List.forall_mem_cons.mp h
    rw [List.splitOn_cons_eq_if_modifyHead, if_pos (beq_self_eq_true _), wordsOf_nil_cons]
    exact wordsOf_slashes hback

theorem words_append_slashes (front : List Char) (hback : ∀ c ∈ back, c = '/') :
    words (.ofList (front ++ back)) = words (.ofList front) := by
  rw [words_eq, words_eq, String.toList_ofList, String.toList_ofList]
  cases back with
  | nil => rw [List.append_nil]
  | cons c back =>
    obtain ⟨rfl, hrest⟩ := List.forall_mem_cons.mp hback
    rw [List.splitOn_append_cons_self, wordsOf_append, wordsOf_slashes hrest, List.append_nil]

/-- A path without the slashes at its end, unless it has nothing else. -/
def trimmed (path : String) : String :=
  let named := (path.toList.reverse.dropWhile (· == '/')).reverse
  if named.isEmpty then path else .ofList named

/-- A path is trimmed, or it has slashes at its end that do not belong to its names. -/
theorem trimmed_cases (path : String) : trimmed path = path ∨
    ∃ suffix, path = trimmed path ++ suffix ∧ trimmed path ≠ "" ∧ words (trimmed path) = words path ∧
      names (trimmed path) = words path ∧ names path = words path ++ ["."] := by
  by_cases hlast : path.toList.getLast? = some '/'
  · by_cases hnamed : (path.toList.reverse.dropWhile (· == '/')).reverse = []
    · left
      rw [trimmed, hnamed]
      rfl
    · right
      have htrimmed : trimmed path = .ofList (path.toList.reverse.dropWhile (· == '/')).reverse :=
        if_neg (by rwa [List.isEmpty_iff])
      have hpath : path.toList = (path.toList.reverse.dropWhile (· == '/')).reverse ++
          (path.toList.reverse.takeWhile (· == '/')).reverse := by
        rw [← List.reverse_append, List.takeWhile_append_dropWhile, List.reverse_reverse]
      have hend : (path.toList.reverse.dropWhile (· == '/')).reverse.getLast? ≠ some '/' := by
        rw [List.getLast?_reverse]
        intro hhead
        have hnot := List.head?_dropWhile_not (· == '/') path.toList.reverse
        rw [hhead] at hnot
        simp at hnot
      have hwords : words (trimmed path) = words path := by
        rw [htrimmed, ← words_append_slashes _ (fun c hc => ?_), ← hpath, String.ofList_toList]
        simpa using List.all_eq_true.mp List.all_takeWhile c (List.mem_reverse.mp hc)
      refine ⟨.ofList (path.toList.reverse.takeWhile (· == '/')).reverse, ?_, ?_, hwords, ?_, if_pos hlast⟩
      · rw [htrimmed, ← String.ofList_append, ← hpath, String.ofList_toList]
      · rw [htrimmed, Ne, ← String.toList_inj, String.toList_ofList]
        exact hnamed
      · rw [names, if_neg (by rwa [htrimmed, String.toList_ofList]), hwords]
  · left
    have hdrop : path.toList.reverse.dropWhile (· == '/') = path.toList.reverse := by
      cases hrev : path.toList.reverse with
      | nil => rfl
      | cons c cs =>
        rw [List.dropWhile_cons_of_neg]
        intro hc
        rw [← List.head?_reverse, hrev, List.head?_cons, eq_of_beq hc] at hlast
        exact hlast rfl
    rw [trimmed, hdrop, List.reverse_reverse, String.ofList_toList, ite_self]

/-! ### The directory of a path -/

/-- Parts without those at their end that lead nowhere. -/
theorem dropIdle_front (ps : List (List Char)) : (ps.reverse.dropWhile isIdle).reverse <+: ps := by
  have h := List.reverse_prefix.mpr (List.dropWhile_suffix (l := ps.reverse) isIdle)
  rwa [List.reverse_reverse] at h

theorem wordsOf_mono {ps qs : List (List Char)} (h : ps <+: qs) : wordsOf ps <+: wordsOf qs := by
  obtain ⟨more, rfl⟩ := h
  rw [wordsOf_append]
  exact List.prefix_append _ _

theorem splitOn_ofParts {ps : List (List Char)} (hps : ps ≠ []) (h : ∀ p ∈ ps, '/' ∉ p) :
    (ofParts ps).toList.splitOn '/' = ps := by
  rw [ofParts, String.toList_ofList, List.splitOn_intercalate '/' h hps]

/-- A path starts at the root if its first part, of several, is empty. -/
theorem isAbsolute_iff_parts (path : String) : isAbsolute path = true ↔ ∃ p ps, path.toList.splitOn '/' = [] :: p :: ps := by
  rw [isAbsolute]
  cases hcs : path.toList with
  | nil => simp
  | cons c cs =>
    obtain ⟨q, qs, heq⟩ := List.exists_cons_of_ne_nil (List.splitOn_ne_nil '/' cs)
    rw [List.splitOn_cons_eq_if_modifyHead, heq, List.modifyHead_cons]
    split
    · rename_i hc
      simp at hc
      simp [hc]
    · rename_i hc
      simp at hc
      simp [hc]

theorem isAbsolute_front {first : List Char} {front rest : List (List Char)} (hpath : path.toList.splitOn '/' = first :: rest)
    (hparent : parent.toList.splitOn '/' = first :: front) (hrest : rest ≠ []) (hfront : first = [] → front ≠ []) :
    isAbsolute parent = isAbsolute path := by
  rw [Bool.eq_iff_iff, isAbsolute_iff_parts, isAbsolute_iff_parts, hpath, hparent]
  obtain ⟨p, ps, rfl⟩ := List.exists_cons_of_ne_nil hrest
  constructor
  · rintro ⟨q, qs, heq⟩
    cases heq
    exact ⟨p, ps, rfl⟩
  · rintro ⟨q, qs, heq⟩
    cases heq
    obtain ⟨r, rs, rfl⟩ := List.exists_cons_of_ne_nil (hfront rfl)
    exact ⟨r, rs, rfl⟩

/-- The directory of a path starts where the path does and has the first of its words. -/
theorem parent?_eq_some (h : parent? path = some parent) (hne : parent ≠ "") :
    isAbsolute parent = isAbsolute path ∧ words parent <+: words path := by
  unfold parent? at h
  split at h
  · cases h
  rename_i first rest hparts
  have hparts : path.toList.splitOn '/' = first :: rest := hparts
  have hclean := slash_not_mem path.toList
  rw [hparts] at hclean
  dsimp only at h
  split at h
  · split at h
    · cases h
    · cases h
      exact absurd rfl hne
  rename_i hsome
  have hinit := List.dropLast_prefix (rest.reverse.dropWhile isIdle).reverse
  have hfront : ((rest.reverse.dropWhile isIdle).reverse.dropLast.reverse.dropWhile isIdle).reverse <+: rest :=
    (dropIdle_front _).trans (hinit.trans (dropIdle_front rest))
  generalize ((rest.reverse.dropWhile isIdle).reverse.dropLast.reverse.dropWhile isIdle).reverse = front at h hfront
  have hrest : rest ≠ [] := by
    rintro rfl
    exact hsome rfl
  split at h
  · cases h
    obtain ⟨p, ps, rfl⟩ := List.exists_cons_of_ne_nil hrest
    exact ⟨((isAbsolute_iff_parts path).mpr ⟨p, ps, hparts⟩).symm, List.nil_prefix⟩
  · rename_i hroot
    cases h
    have hall : ∀ q ∈ first :: front, '/' ∉ q := fun q hq =>
      hclean q ((List.cons_prefix_cons.mpr ⟨rfl, hfront⟩).subset hq)
    have hparent := splitOn_ofParts (List.cons_ne_nil first front) hall
    refine ⟨isAbsolute_front hparts hparent hrest hroot, ?_⟩
    rw [words_eq, words_eq, hparent, hparts]
    exact wordsOf_mono (List.cons_prefix_cons.mpr ⟨rfl, hfront⟩)

/-! ### A longer last name -/

/-- The last part of a path goes up to its end, so what is put behind the path is put behind that part. -/
theorem exists_last_part (cs : List Char) : ∃ ps last, (cs.getLast? = some '/' → last = []) ∧
    (cs.getLast? ≠ some '/' → cs ≠ [] → last ≠ []) ∧
    ∀ back, '/' ∉ back → (cs ++ back).splitOn '/' = ps ++ [last ++ back] := by
  by_cases hslash : '/' ∈ cs
  · obtain ⟨as, bs, heq, has⟩ := List.eq_append_cons_of_mem (List.mem_reverse.mpr hslash)
    have hcs : cs = bs.reverse ++ '/' :: as.reverse := by
      rw [← List.reverse_reverse cs, heq, List.reverse_append, List.reverse_cons, List.append_assoc]
      rfl
    have hhead : cs.getLast? = (as ++ '/' :: bs).head? := by rw [← heq, List.head?_reverse]
    refine ⟨bs.reverse.splitOn '/', as.reverse, fun hlast => ?_, fun hlast _ => ?_, fun back hback => ?_⟩
    · rw [hhead] at hlast
      cases as with
      | nil => rfl
      | cons a as =>
        rw [List.cons_append, List.head?_cons, Option.some.injEq] at hlast
        exact absurd (hlast ▸ List.mem_cons_self) has
    · rintro h
      rw [List.reverse_eq_nil_iff] at h
      subst h
      exact hlast hhead
    · have hlast : '/' ∉ as.reverse ++ back := by
        rw [List.mem_append, List.mem_reverse]
        exact not_or.mpr ⟨has, hback⟩
      rw [hcs, List.append_assoc, List.cons_append, List.splitOn_append_cons_self, List.splitOn_eq_singleton hlast]
  · refine ⟨[], cs, fun hlast => ?_, fun _ hne => hne, fun back hback => ?_⟩
    · exact absurd (List.mem_of_getLast? hlast) hslash
    · rw [List.splitOn_eq_singleton (by rw [List.mem_append]; exact not_or.mpr ⟨hslash, hback⟩), List.nil_append]

theorem isAbsolute_append_string (hne : path ≠ "") (suffix : String) : isAbsolute (path ++ suffix) = isAbsolute path := by
  rw [Ne, ← String.toList_inj] at hne
  obtain ⟨c, cs, heq⟩ := List.exists_cons_of_ne_nil hne
  rw [isAbsolute, isAbsolute, String.toList_append, heq]
  rfl

theorem getLast?_append_ne (hback : back ≠ []) (hslash : '/' ∉ back) : (front ++ back).getLast? ≠ some '/' := by
  obtain ⟨c, hc⟩ := Option.ne_none_iff_exists'.mp (mt List.getLast?_eq_none_iff.mp hback)
  rw [List.getLast?_append, hc, Option.some_or]
  exact fun h => hslash (List.mem_of_getLast? (hc.trans h))

/-- The names of a path and of one with something behind its last name. -/
theorem names_append {suffix : String} (hne : path ≠ "") (hsuffix : suffix ≠ "") (hslash : '/' ∉ suffix.toList) :
    ∃ ns name last, names path = ns ++ [name] ∧ names (path ++ suffix) = ns ++ [last ++ suffix] ∧ (name = "." ∨ name = last) := by
  rw [Ne, ← String.toList_inj] at hne hsuffix
  obtain ⟨ps, last, hend, hmore, hsplit⟩ := exists_last_part path.toList
  have hlong : names (path ++ suffix) = wordsOf ps ++ [String.ofList last ++ suffix] := by
    have hlast : (path.toList ++ suffix.toList).getLast? ≠ some '/' := getLast?_append_ne hsuffix hslash
    rw [← String.toList_append] at hlast
    rw [names, if_neg hlast, words_eq, String.toList_append, hsplit _ hslash, wordsOf_append, wordsOf_single]
    · rw [String.ofList_append, String.ofList_toList]
    · exact fun h => hsuffix (List.append_eq_nil_iff.mp h).2
  have hpath := hsplit [] List.not_mem_nil
  rw [List.append_nil, List.append_nil] at hpath
  refine ⟨wordsOf ps, ?_⟩
  by_cases hlast : path.toList.getLast? = some '/'
  · refine ⟨".", String.ofList last, ?_, hlong, Or.inl rfl⟩
    rw [names, if_pos hlast, words_eq, hpath, wordsOf_append, hend hlast]
    exact List.append_nil _ ▸ rfl
  · refine ⟨String.ofList last, String.ofList last, ?_, hlong, Or.inr rfl⟩
    rw [names, if_neg hlast, words_eq, hpath, wordsOf_append, wordsOf_single (hmore hlast hne)]

end AddressPlan.Path
