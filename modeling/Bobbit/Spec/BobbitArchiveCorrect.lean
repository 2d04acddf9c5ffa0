import Bobbit.Server.BobbitArchive

/-!
# What starting fresh archives

The walk cuts the tree of files along roots that are moved or preserved, no root above another. A
directory is moved as a whole only where no entry of the allowlist can match below it. What can go
wrong lies outside the walk: the archive's name is not new once `-999` is taken, and the manifest
is written over a file of its name that was moved.

## Key results
- `descendant_of_match`: the test for a preserved descendant misses none.
- `walk_walked`: the walk ends, with every file below exactly one root.
- `archivesExactly_iff`: when exactly the unlisted data is archived and left intact.
-/

namespace Bobbit.Server.BobbitArchive

open Lib Lib.FileTree

variable {α : Type} {env : ArchiveEnv α} {allowlist : List JsString} {archive : JsString}

/-! ## The property -/

/-- The files at the root path, before the archive. -/
abbrev Files (α : Type) := Tree JsString (Original α)

def onDisk (files : Files α) : Disk α := files.map fun e => (e.1, e.2.map Leaf.original)

/-- The three documented shapes of an entry: `state/dir/`, or a `*` at most at its end. -/
def Documented (entry : JsString) : Prop := [slash] <:+ entry ∨ star ∉ entry.dropLast

def Preserved (allowlist : List JsString) (rel : FilePath) : Prop :=
  (isPreserved (relForMatch rel) allowlist).isMatch = true

/-- The allowlist matches a path or what it lies in. -/
def Kept (allowlist : List JsString) (rel : FilePath) : Prop :=
  ∃ q, q ≠ [] ∧ q <+: rel ∧ Preserved allowlist q

/-- Neither path is above the other. -/
def Apart (p q : FilePath) : Prop := ¬ p <+: q ∧ ¬ q <+: p

/-- The records name the roots of the partition: each file lies below exactly one of them, a moved
    one where it is not kept and a preserved one where it is. -/
structure Describes (files : Files α) (allowlist : List JsString) (result : ArchiveResult)
    (moved preserved : List FilePath) : Prop where
  movedPaths : result.movedPaths.Perm (moved.map relForMatch)
  preservedPaths : result.preservedPaths.Perm (preserved.map relForMatch)
  apart : (moved ++ preserved).Pairwise Apart
  stands : ∀ q ∈ moved ++ preserved, ∃ e, (bobbit :: q, e) ∈ files
  moves : ∀ p o, (bobbit :: p, .leaf o) ∈ files → ((∃ q ∈ moved, q <+: p) ↔ ¬ Kept allowlist p)
  keeps : ∀ p o, (bobbit :: p, .leaf o) ∈ files → ((∃ q ∈ preserved, q <+: p) ↔ Kept allowlist p)

/-- The archive directory is new; what the allowlist matches stays as it is, and every other file is
    moved to its path in the archive and left as it was; the records say so. -/
structure ArchivesExactly (files : Files α) (allowlist : List JsString) (archive : JsString)
    (result : ArchiveResult) (disk : Disk α) : Prop where
  fresh : ∀ x ∈ files, x.1.head? ≠ some archive
  kept : ∀ p e, (bobbit :: p, e) ∈ files → Kept allowlist p →
    (bobbit :: p, e.map .original) ∈ disk ∧
      ∀ e', (bobbit :: p, e') ∈ disk → e' = e.map .original
  moved : ∀ p o, (bobbit :: p, .leaf o) ∈ files → ¬ Kept allowlist p →
    (archive :: p, .leaf (.original o)) ∈ disk ∧
      (∀ e', (archive :: p, e') ∈ disk → e' = .leaf (.original o)) ∧
      ∀ e', (bobbit :: p, e') ∈ disk → e' = .dir
  described : ∃ moved preserved, Describes files allowlist result moved preserved

/-! ## The allowlist -/

theorem preserved_iff {rel : FilePath} :
    Preserved allowlist rel ↔
      ∃ entry ∈ allowlist, (matchesAllowlistEntry (relForMatch rel) entry).isMatch = true := by
  rw [Preserved]
  induction allowlist with
  | nil => simp [isPreserved]
  | cons entry rest ih =>
    rw [isPreserved]
    split
    · rename_i hmatch
      simp [hmatch]
    · rename_i hmatch
      simp [ih, hmatch]

theorem forwardSlashed_relForMatch (rel : FilePath) :
    forwardSlashed (relForMatch rel) = relForMatch rel := by
  rw [relForMatch, forwardSlashed, forwardSlashed, List.map_map]
  refine List.map_congr_left fun c _ => ?_
  by_cases hc : c = 0x5C
  · simp only [Function.comp_apply, hc, if_pos]
    decide
  · simp [hc]

theorem relForMatch_append {p r : FilePath} (hp : p ≠ []) (hr : r ≠ []) :
    relForMatch (p ++ r) = relForMatch p ++ slash :: relForMatch r := by
  have hjoin : [slash].intercalate (p ++ r) =
      [slash].intercalate p ++ slash :: [slash].intercalate r := by
    induction p with
    | nil => exact absurd rfl hp
    | cons name rest ih =>
      by_cases hrest : rest = []
      · rw [hrest, List.cons_append, List.nil_append, List.intercalate_singleton,
          List.intercalate_cons_of_ne_nil hr, List.append_assoc, List.singleton_append]
      · rw [List.cons_append, List.intercalate_cons_of_ne_nil (by simp [hrest]), ih hrest,
          List.intercalate_cons_of_ne_nil hrest]
        simp only [List.append_assoc]
  rw [relForMatch, hjoin, forwardSlashed, List.map_append, List.map_cons]
  rfl

theorem match_dir_iff {norm dir : JsString} (hnorm : forwardSlashed norm = norm) :
    (matchesAllowlistEntry norm (dir ++ [slash])).isMatch = true ↔
      norm = dir ∨ dir ++ [slash] <+: norm := by
  have hslash : [slash].isSuffixOf (dir ++ [slash]) = true :=
    List.isSuffixOf_iff_suffix.mpr (List.suffix_append _ _)
  simp only [matchesAllowlistEntry, hnorm, hslash, if_true, List.dropLast_concat]
  split
  · simp_all
  · split
    · rename_i hpre
      simp [List.isPrefixOf_iff_prefix.mp hpre]
    · rename_i hne hnot
      rw [List.isPrefixOf_iff_prefix] at hnot
      simp [hne, hnot]

theorem match_star_iff {norm head : JsString} (hnorm : forwardSlashed norm = norm)
    (hstar : star ∉ head) :
    (matchesAllowlistEntry norm (head ++ [star])).isMatch = true ↔
      head <+: norm ∧ slash ∉ norm.drop head.length := by
  have hslash : [slash].isSuffixOf (head ++ [star]) = false := by
    rw [Bool.eq_false_iff]
    intro h
    obtain ⟨init, hinit⟩ := List.isSuffixOf_iff_suffix.mp h
    have hlast := (List.append_inj' hinit rfl).2
    exact absurd hlast (by decide)
  have hidx : (head ++ [star]).idxOf star = head.length := by
    rw [List.idxOf_append_of_notMem hstar]
    simp
  simp only [matchesAllowlistEntry, hnorm, hslash, hidx]
  simp [List.isPrefixOf_iff_prefix, apply_ite AllowMatch.isMatch]

/-- What an entry without a slash at its end and without a `*` matches. -/
theorem match_exact_iff {norm entry : JsString} (hnorm : forwardSlashed norm = norm)
    (hslash : ¬ [slash] <:+ entry) (hstar : star ∉ entry) :
    (matchesAllowlistEntry norm entry).isMatch = true ↔ norm = entry := by
  have hnot : [slash].isSuffixOf entry = false := by
    rw [Bool.eq_false_iff]
    exact fun h => hslash (List.isSuffixOf_iff_suffix.mp h)
  simp [matchesAllowlistEntry, hnorm, hnot, hstar]

theorem Documented.cases {entry : JsString} (h : Documented entry) :
    (∃ dir, entry = dir ++ [slash]) ∨ (∃ head, entry = head ++ [star] ∧ star ∉ head) ∨
      (¬ [slash] <:+ entry ∧ star ∉ entry) := by
  by_cases hslash : [slash] <:+ entry
  · obtain ⟨dir, rfl⟩ := hslash
    exact .inl ⟨dir, rfl⟩
  · have hdrop := h.resolve_left hslash
    by_cases hstar : star ∈ entry
    · right; left
      have hne : entry ≠ [] := List.ne_nil_of_mem hstar
      have hconcat := List.dropLast_concat_getLast hne
      rw [← hconcat, List.mem_append, List.mem_singleton] at hstar
      have hlast := hstar.resolve_left hdrop
      exact ⟨entry.dropLast, by rw [hlast, hconcat], hdrop⟩
    · exact .inr (.inr ⟨hslash, hstar⟩)

/-- The text that is looked for at the start of an entry begins a text below the directory. -/
theorem descendant_of_match {entry t u : JsString} (hentry : Documented entry)
    (ht : forwardSlashed t = t) (htu : forwardSlashed (t ++ slash :: u) = t ++ slash :: u)
    (hno : ¬ (matchesAllowlistEntry t entry).isMatch = true)
    (hyes : (matchesAllowlistEntry (t ++ slash :: u) entry).isMatch = true) :
    containsPreservedDescendant t [entry] = true := by
  have hbelow : t ++ [slash] <+: t ++ slash :: u :=
    (List.prefix_append_right_inj t).mpr ⟨u, rfl⟩
  have hdir : (if [slash].isSuffixOf t then t else t ++ [slash]) <+: t ++ [slash] := by
    split
    · exact List.prefix_append _ _
    · exact List.prefix_refl _
  suffices h : t ++ [slash] <+: (if [star].isSuffixOf entry then entry.dropLast else entry) by
    simp only [containsPreservedDescendant, List.any_cons, List.any_nil, Bool.or_false]
    exact List.isPrefixOf_iff_prefix.mpr (hdir.trans h)
  rcases hentry.cases with ⟨dir, rfl⟩ | ⟨head, rfl, hstar⟩ | ⟨hslash, hstar⟩
  · have hnot : [star].isSuffixOf (dir ++ [slash]) = false := by
      rw [Bool.eq_false_iff]
      intro h
      obtain ⟨init, hinit⟩ := List.isSuffixOf_iff_suffix.mp h
      exact absurd (List.append_inj' hinit rfl).2 (by decide)
    rw [hnot, if_neg Bool.false_ne_true]
    rw [match_dir_iff ht, not_or] at hno
    rcases (match_dir_iff htu).mp hyes with heq | hpre
    · exact (heq ▸ hbelow).trans (List.prefix_append _ _)
    · -- two beginnings of one text: the directory of the entry is not above `t`
      rcases List.prefix_or_prefix_of_prefix hpre hbelow with h | h
      · rcases List.prefix_concat_iff.mp h with h | h
        · rw [h]
        · exact absurd h hno.2
      · exact h
  · have hsuffix : [star].isSuffixOf (head ++ [star]) = true :=
      List.isSuffixOf_iff_suffix.mpr (List.suffix_append _ _)
    rw [hsuffix, if_pos rfl, List.dropLast_concat]
    obtain ⟨hpre, hplain⟩ := (match_star_iff htu hstar).mp hyes
    rcases List.prefix_or_prefix_of_prefix hpre hbelow with h | h
    · rcases List.prefix_concat_iff.mp h with h | h
      · rw [h]
      · -- the slash behind `t` would lie behind the star
        obtain ⟨rest, rfl⟩ := h
        rw [List.append_assoc, List.drop_left] at hplain
        exact absurd (List.mem_append_right _ List.mem_cons_self) hplain
    · exact h
  · have hnot : [star].isSuffixOf entry = false := by
      rw [Bool.eq_false_iff]
      intro h
      exact hstar ((List.isSuffixOf_iff_suffix.mp h).subset List.mem_cons_self)
    rw [hnot, if_neg Bool.false_ne_true, ← (match_exact_iff htu hslash hstar).mp hyes]
    exact hbelow

/-- A directory that is moved as a whole has nothing preserved below it. -/
theorem not_preserved_below {p r : FilePath} (hdocumented : ∀ entry ∈ allowlist, Documented entry)
    (hp : p ≠ []) (hr : r ≠ []) (hno : ¬ Preserved allowlist p)
    (hcontains : containsPreservedDescendant (relForMatch p) allowlist = false) :
    ¬ Preserved allowlist (p ++ r) := by
  intro h
  obtain ⟨entry, hentry, hmatch⟩ := preserved_iff.mp h
  rw [preserved_iff] at hno
  push Not at hno
  rw [relForMatch_append hp hr] at hmatch
  have hfound := descendant_of_match (hdocumented entry hentry) (forwardSlashed_relForMatch p)
    (by rw [← relForMatch_append hp hr, forwardSlashed_relForMatch]) (hno entry hentry) hmatch
  simp only [containsPreservedDescendant, List.any_cons, List.any_nil, Bool.or_false] at hfound
  simp only [containsPreservedDescendant, List.any_eq_false] at hcontains
  exact absurd hfound (hcontains entry hentry)

theorem gatewayOwnedFiles_documented : ∀ entry ∈ gatewayOwnedFiles, Documented entry := by
  have hall : gatewayOwnedFiles.all (fun e => [slash].isSuffixOf e || star ∉ e.dropLast) = true := by
    decide +kernel
  intro entry hentry
  have h := List.all_eq_true.mp hall entry hentry
  rw [Bool.or_eq_true, List.isSuffixOf_iff_suffix, decide_eq_true_eq] at h
  exact h

/-! ## Where the files are -/

/-- The path of an entry once the roots `moved` have been moved. -/
def placeOf (archive : JsString) (moved : List FilePath) : FilePath → FilePath
  | [] => []
  | name :: rel =>
    if name = bobbit ∧ ∃ m ∈ moved, m <+: rel then archive :: rel else name :: rel

theorem placeOf_moved {moved : List FilePath} {rel m : FilePath} (hm : m ∈ moved)
    (h : m <+: rel) : placeOf archive moved (bobbit :: rel) = archive :: rel :=
  if_pos ⟨rfl, m, hm, h⟩

theorem placeOf_other {moved : List FilePath} {rel : FilePath}
    (h : ∀ m ∈ moved, ¬ m <+: rel) : placeOf archive moved (bobbit :: rel) = bobbit :: rel :=
  if_neg fun ⟨_, m, hm, hpre⟩ => h m hm hpre

theorem eq_of_placeOf {moved : List FilePath} (hne : archive ≠ bobbit) {x rel : FilePath}
    (h : placeOf archive moved x = bobbit :: rel) :
    x = bobbit :: rel ∧ ∀ m ∈ moved, ¬ m <+: rel := by
  cases x with
  | nil => cases h
  | cons name p =>
    rw [placeOf] at h
    split at h
    · exact absurd (List.cons.inj h).1 hne
    · rename_i hnot
      obtain ⟨rfl, rfl⟩ := List.cons.inj h
      exact ⟨rfl, fun m hm hpre => hnot ⟨rfl, m, hm, hpre⟩⟩

/-- A place in the new archive is that of an entry below `.bobbit`. -/
theorem eq_of_placeOf_archive {moved : List FilePath} {x rel : FilePath}
    (hfresh : x.head? ≠ some archive) (h : placeOf archive moved x = archive :: rel) :
    x = bobbit :: rel := by
  cases x with
  | nil => cases h
  | cons name p =>
    rw [placeOf] at h
    split at h
    · rename_i hmoved
      rw [hmoved.1, (List.cons.inj h).2]
    · exact absurd (congrArg some (List.cons.inj h).1) hfresh

/-- The disk with the roots `moved` in the archive, and directories made for them. -/
def Shows (files : Files α) (archive : JsString) (moved : List FilePath) (disk : Disk α) : Prop :=
  ∃ made : Disk α,
    disk = (onDisk files).map (fun e => (placeOf archive moved e.1, e.2)) ++ made ∧
      ∀ x ∈ made, x.2 = .dir ∧ (x.1 = [archive] ∨
        ∃ m ∈ moved, ∃ d, d <+: m.dropLast ∧ x.1 = archive :: d)

variable {files : Files α}

theorem mem_onDisk {p : FilePath} {e : Entry (Leaf α)} :
    (p, e) ∈ onDisk files ↔ ∃ e₀, (p, e₀) ∈ files ∧ e = e₀.map .original := by
  rw [onDisk, List.mem_map]
  constructor
  · rintro ⟨x, hx, heq⟩
    cases heq
    exact ⟨x.2, hx, rfl⟩
  · rintro ⟨e₀, he, rfl⟩
    exact ⟨(p, e₀), he, rfl⟩

namespace Shows

variable {moved : List FilePath} {disk : Disk α}

theorem mem (h : Shows files archive moved disk) {p : FilePath} {e : Entry (Original α)}
    (he : (p, e) ∈ files) : (placeOf archive moved p, e.map .original) ∈ disk := by
  obtain ⟨made, rfl, -⟩ := h
  exact List.mem_append_left _
    (List.mem_map.mpr ⟨(p, e.map .original), mem_onDisk.mpr ⟨e, he, rfl⟩, rfl⟩)

/-- What the disk shows is an entry at its place or a directory in the archive. -/
theorem cases (h : Shows files archive moved disk) {p : FilePath} {e : Entry (Leaf α)}
    (he : (p, e) ∈ disk) :
    (∃ x e₀, (x, e₀) ∈ files ∧ placeOf archive moved x = p ∧ e = e₀.map .original) ∨
      e = .dir ∧ (p = [archive] ∨ ∃ m ∈ moved, ∃ d, d <+: m.dropLast ∧ p = archive :: d) := by
  obtain ⟨made, rfl, hmade⟩ := h
  rcases List.mem_append.mp he with he | he
  · obtain ⟨y, hy, heq⟩ := List.mem_map.mp he
    obtain ⟨e₀, he₀, hentry⟩ := mem_onDisk.mp (show (y.1, y.2) ∈ onDisk files from hy)
    cases heq
    exact .inl ⟨y.1, e₀, he₀, rfl, hentry⟩
  · exact .inr (hmade _ he)

/-- An entry that is not moved stands at its path, and nothing else does. -/
theorem lookup_eq (h : Shows files archive moved disk) (hvalid : Valid files)
    (hne : archive ≠ bobbit) {rel : FilePath} {e : Entry (Original α)}
    (he : (bobbit :: rel, e) ∈ files) (hnot : ∀ m ∈ moved, ¬ m <+: rel) :
    lookup disk (bobbit :: rel) = some (e.map .original) := by
  have hmem := h.mem he
  rw [placeOf_other hnot] at hmem
  refine lookup_of_unique hmem fun e' he' => ?_
  rcases h.cases he' with ⟨x, e₀, hx, hplace, rfl⟩ | ⟨-, hdir⟩
  · obtain ⟨rfl, -⟩ := eq_of_placeOf hne hplace
    rw [hvalid.unique hx he]
  · rcases hdir with hdir | ⟨m, -, d, -, hdir⟩
    · exact absurd (List.cons.inj hdir).1.symm hne
    · exact absurd (List.cons.inj hdir).1.symm hne

/-- A directory in which nothing is moved is listed as before. -/
theorem children_eq (h : Shows files archive moved disk) (hne : archive ≠ bobbit)
    {rel : FilePath} (hnot : ∀ m ∈ moved, ¬ m <+: rel ∧ ¬ rel <+: m) :
    children disk (bobbit :: rel) = children files (bobbit :: rel) := by
  obtain ⟨made, rfl, hmade⟩ := h
  have hlisted : ∀ x : FilePath × Entry (Leaf α),
      nameIn (bobbit :: rel) (placeOf archive moved x.1) = nameIn (bobbit :: rel) x.1 := by
    intro x
    cases hx : x.1 with
    | nil => rfl
    | cons name p =>
      rw [placeOf]
      split
      · rename_i hmoved
        obtain ⟨rfl, m, hm, hpre⟩ := hmoved
        have hbefore : nameIn (bobbit :: rel) (bobbit :: p) = none := by
          rw [Option.eq_none_iff_forall_ne_some]
          intro n hn
          have heq := (List.cons.inj (nameIn_eq_some_iff.mp hn)).2
          rw [heq] at hpre
          rcases List.prefix_concat_iff.mp hpre with hm' | hm'
          · exact (hnot m hm).2 (hm' ▸ List.prefix_append _ _)
          · exact (hnot m hm).1 hm'
        rw [hbefore, Option.eq_none_iff_forall_ne_some]
        intro n hn
        exact hne (List.cons.inj (nameIn_eq_some_iff.mp hn)).1
      · rfl
  have hempty : (made.map (·.1)).filterMap (nameIn (bobbit :: rel)) = [] := by
    rw [List.filterMap_eq_nil_iff]
    intro q hq
    obtain ⟨x, hx, rfl⟩ := List.mem_map.mp hq
    rw [Option.eq_none_iff_forall_ne_some]
    intro n hn
    have hpath := nameIn_eq_some_iff.mp hn
    rcases (hmade x hx).2 with hdir | ⟨m, -, d, -, hdir⟩
    · exact hne (List.cons.inj (hdir.symm.trans hpath)).1
    · exact hne (List.cons.inj (hdir.symm.trans hpath)).1
  rw [children, children, List.map_append, List.filterMap_append, hempty, List.append_nil, onDisk]
  simp only [List.map_map, List.filterMap_map]
  exact List.filterMap_congr fun x _ => hlisted (x.1, x.2.map .original)

theorem moveEntry (h : Shows files archive moved disk) (hne : archive ≠ bobbit) {rel : FilePath}
    (hrel : rel ≠ []) :
    Shows files archive (moved ++ [rel])
      (BobbitArchive.moveEntry disk (bobbit :: rel) (archive :: rel)) := by
  obtain ⟨made, rfl, hmade⟩ := h
  have hparent : (archive :: rel).dropLast = archive :: rel.dropLast :=
    List.dropLast_cons_of_ne_nil hrel
  obtain ⟨more, hmore, hspec⟩ := mkdirs_eq_append
    ((onDisk files).map (fun e => (placeOf archive moved e.1, e.2)) ++ made)
    (archive :: rel.dropLast)
  have hkept : ∀ p : FilePath, p.head? = some archive →
      relocate (bobbit :: rel) (archive :: rel) p = p := by
    intro p hp
    refine if_neg fun hpre => ?_
    obtain ⟨rest, rfl⟩ := hpre
    exact hne (Option.some.inj hp).symm
  have hdirs : ∀ x ∈ made ++ more, x.2 = .dir ∧ (x.1 = [archive] ∨
      ∃ m ∈ moved ++ [rel], ∃ d, d <+: m.dropLast ∧ x.1 = archive :: d) := by
    intro x hx
    rcases List.mem_append.mp hx with hx | hx
    · refine ⟨(hmade x hx).1, (hmade x hx).2.imp_right ?_⟩
      rintro ⟨m, hm, d, hd, hpath⟩
      exact ⟨m, List.mem_append_left _ hm, d, hd, hpath⟩
    · obtain ⟨hdir, hnil, hpre⟩ := hspec x hx
      refine ⟨hdir, .inr ⟨rel, by simp, ?_⟩⟩
      cases hpath : x.1 with
      | nil => exact absurd hpath hnil
      | cons name d =>
        rw [hpath] at hpre
        obtain ⟨rfl, hd⟩ := List.cons_prefix_cons.mp hpre
        exact ⟨d, hd, rfl⟩
  refine ⟨made ++ more, ?_, hdirs⟩
  rw [BobbitArchive.moveEntry, hparent, hmore, rename, List.append_assoc, List.map_append,
    List.map_map]
  congr 1
  · refine List.map_congr_left fun e _ => ?_
    refine Prod.ext ?_ rfl
    simp only [Function.comp_apply]
    cases hx : e.1 with
    | nil => simp [placeOf, relocate]
    | cons name p =>
      by_cases hmoved : name = bobbit ∧ ∃ m ∈ moved, m <+: p
      · obtain ⟨rfl, m, hm, hpre⟩ := hmoved
        rw [placeOf_moved hm hpre, placeOf_moved (List.mem_append_left _ hm) hpre]
        exact hkept _ rfl
      · rw [placeOf, if_neg hmoved, relocate, placeOf]
        by_cases hname : name = bobbit ∧ rel <+: p
        · obtain ⟨rfl, hpre⟩ := hname
          rw [if_pos (List.cons_prefix_cons.mpr ⟨rfl, hpre⟩), if_pos ⟨rfl, rel, by simp, hpre⟩]
          obtain ⟨rest, rfl⟩ := hpre
          simp
        · rw [if_neg, if_neg]
          · rintro ⟨rfl, m, hm, hpre⟩
            rcases List.mem_append.mp hm with hm | hm
            · exact hmoved ⟨rfl, m, hm, hpre⟩
            · rw [List.mem_singleton.mp hm] at hpre
              exact hname ⟨rfl, hpre⟩
          · intro hpre
            obtain ⟨h₁, h₂⟩ := List.cons_prefix_cons.mp hpre
            exact hname ⟨h₁.symm, h₂⟩
  · refine (List.map_congr_left fun x hx => ?_).trans (List.map_id _)
    rcases (hdirs x hx).2 with hpath | ⟨m, -, d, -, hpath⟩
    · exact Prod.ext (hkept x.1 (by rw [hpath]; rfl)) rfl
    · exact Prod.ext (hkept x.1 (by rw [hpath]; rfl)) rfl

end Shows

/-! ## The walk -/

/-- The state of a walk without failures: the roots `moved` and `preserved`, and the paths `popped`
    that have been taken off the queue. -/
structure Walked (files : Files α) (allowlist : List JsString) (archive : JsString)
    (moved preserved popped : List FilePath) (s : WalkState α) : Prop where
  failed : s.failed = []
  movedPaths : s.moved = moved.map relForMatch
  preservedPaths : s.preserved = preserved.map relForMatch
  shows : Shows files archive moved s.disk
  apart : (s.queue ++ moved ++ preserved).Pairwise Apart
  stands : ∀ q ∈ s.queue ++ moved ++ preserved, q ≠ [] ∧ ∃ e, (bobbit :: q, e) ∈ files
  covers : ∀ p o, (bobbit :: p, .leaf o) ∈ files →
    ∃ q ∈ s.queue ++ moved ++ preserved, q <+: p
  /-- Nothing above a path of the queue is preserved. -/
  descends : ∀ q ∈ s.queue, ∀ r, r ≠ [] → r <+: q → r ≠ q → ¬ Preserved allowlist r
  moves : ∀ m ∈ moved, ∀ p e, (bobbit :: p, e) ∈ files → m <+: p → ¬ Kept allowlist p
  keeps : ∀ q ∈ preserved, Preserved allowlist q
  nodup : popped.Nodup
  subset : ∀ d ∈ popped, ∃ e, (bobbit :: d, e) ∈ files
  below : ∀ q ∈ s.queue, ∀ d ∈ popped, ¬ q <+: d

theorem Apart.symm {p q : FilePath} (h : Apart p q) : Apart q p := ⟨h.2, h.1⟩

namespace Walked

variable {moved preserved popped : List FilePath} {s : WalkState α} {rel : FilePath}
  {rest : List FilePath}

/-- The path that is taken off the queue is new among those popped, and so are the ones above. -/
theorem pop (h : Walked files allowlist archive moved preserved popped s)
    (hqueue : s.queue = rel :: rest) :
    (popped ++ [rel]).Nodup ∧ (∀ d ∈ popped ++ [rel], ∃ e, (bobbit :: d, e) ∈ files) ∧
      ∀ q ∈ rest, ∀ d ∈ popped ++ [rel], ¬ q <+: d := by
  have hrel : rel ∈ s.queue := hqueue ▸ List.mem_cons_self
  have hapart := h.apart
  rw [hqueue, List.cons_append, List.cons_append, List.pairwise_cons] at hapart
  refine ⟨?_, ?_, ?_⟩
  · rw [List.nodup_append]
    refine ⟨h.nodup, List.nodup_singleton rel, fun d hd x hx heq => ?_⟩
    rw [List.mem_singleton.mp hx] at heq
    exact h.below rel hrel d hd (heq ▸ List.prefix_refl _)
  · intro d hd
    rcases List.mem_append.mp hd with hd | hd
    · exact h.subset d hd
    · rw [List.mem_singleton.mp hd]
      exact (h.stands rel (by simp [hqueue])).2
  · intro q hq d hd
    rcases List.mem_append.mp hd with hd | hd
    · exact h.below q (hqueue ▸ List.mem_cons_of_mem _ hq) d hd
    · rw [List.mem_singleton.mp hd]
      exact (hapart.1 q (by simp [hq])).2

theorem preserve (h : Walked files allowlist archive moved preserved popped s)
    (hqueue : s.queue = rel :: rest) (hrel : Preserved allowlist rel) :
    Walked files allowlist archive moved (preserved ++ [rel]) (popped ++ [rel])
      { s with queue := rest, preserved := s.preserved ++ [relForMatch rel] } := by
  have hperm : (s.queue ++ moved ++ preserved).Perm (rest ++ moved ++ (preserved ++ [rel])) := by
    rw [hqueue, ← List.append_assoc, List.cons_append, List.cons_append]
    exact (List.perm_append_singleton _ _).symm
  obtain ⟨hnodup, hsubset, hbelow⟩ := h.pop hqueue
  refine ⟨h.failed, h.movedPaths, by simp [h.preservedPaths], h.shows,
    (hperm.pairwise_iff Apart.symm).mp h.apart, fun q hq => h.stands q (hperm.mem_iff.mpr hq), ?_,
    fun q hq => h.descends q (hqueue ▸ List.mem_cons_of_mem _ hq), h.moves, ?_, hnodup, hsubset,
    hbelow⟩
  · intro p o hp
    obtain ⟨q, hq, hpre⟩ := h.covers p o hp
    exact ⟨q, hperm.mem_iff.mp hq, hpre⟩
  · intro q hq
    rcases List.mem_append.mp hq with hq | hq
    · exact h.keeps q hq
    · rwa [List.mem_singleton.mp hq]

/-- The path is moved, as nothing at it or below is kept. -/
theorem move (h : Walked files allowlist archive moved preserved popped s)
    (hne : archive ≠ bobbit) (hqueue : s.queue = rel :: rest)
    (hfree : ∀ p e, (bobbit :: p, e) ∈ files → rel <+: p → ¬ Kept allowlist p) :
    Walked files allowlist archive (moved ++ [rel]) preserved (popped ++ [rel])
      { s with queue := rest, disk := moveEntry s.disk (bobbit :: rel) (archive :: rel),
               moved := s.moved ++ [relForMatch rel] } := by
  have hperm : (s.queue ++ moved ++ preserved).Perm (rest ++ (moved ++ [rel]) ++ preserved) := by
    rw [hqueue, List.cons_append, List.cons_append, ← List.append_assoc, List.append_assoc _ [rel]]
    exact List.perm_middle.symm
  obtain ⟨hnodup, hsubset, hbelow⟩ := h.pop hqueue
  have hrel := (h.stands rel (by simp [hqueue])).1
  refine ⟨h.failed, by simp [h.movedPaths], h.preservedPaths, h.shows.moveEntry hne hrel,
    (hperm.pairwise_iff Apart.symm).mp h.apart, fun q hq => h.stands q (hperm.mem_iff.mpr hq), ?_,
    fun q hq => h.descends q (hqueue ▸ List.mem_cons_of_mem _ hq), ?_, h.keeps, hnodup, hsubset,
    hbelow⟩
  · intro p o hp
    obtain ⟨q, hq, hpre⟩ := h.covers p o hp
    exact ⟨q, hperm.mem_iff.mp hq, hpre⟩
  · intro m hm
    rcases List.mem_append.mp hm with hm | hm
    · exact h.moves m hm
    · rwa [List.mem_singleton.mp hm]

theorem descend (h : Walked files allowlist archive moved preserved popped s)
    (hvalid : Valid files) (hqueue : s.queue = rel :: rest) (hdir : (bobbit :: rel, .dir) ∈ files)
    (hrel : ¬ Preserved allowlist rel) :
    Walked files allowlist archive moved preserved (popped ++ [rel])
      { s with queue := rest ++ (children files (bobbit :: rel)).map fun c => rel ++ [c] } := by
  obtain ⟨hnodup, hsubset, hbelow⟩ := h.pop hqueue
  have hapart := h.apart
  have hstands := h.stands
  rw [hqueue, List.cons_append, List.cons_append] at hapart hstands
  rw [List.pairwise_cons] at hapart
  have hperm : (rest ++ (children files (bobbit :: rel)).map (fun c => rel ++ [c]) ++ moved ++
      preserved).Perm
      ((children files (bobbit :: rel)).map (fun c => rel ++ [c]) ++
        (rest ++ moved ++ preserved)) := by
    simp only [List.append_assoc]
    rw [← List.append_assoc, ← List.append_assoc ((children files (bobbit :: rel)).map _)]
    exact List.perm_append_comm.append_right _
  have hchild : ∀ q ∈ (children files (bobbit :: rel)).map (fun c => rel ++ [c]),
      rel <+: q ∧ rel ≠ q ∧ (∀ r, r <+: q → r ≠ q → r <+: rel) ∧
        ∃ e, (bobbit :: q, e) ∈ files := by
    intro q hq
    obtain ⟨c, hc, rfl⟩ := List.mem_map.mp hq
    refine ⟨List.prefix_append _ _, by simp, fun r hr hne => ?_, mem_children.mp hc⟩
    exact (List.prefix_concat_iff.mp hr).resolve_left hne
  refine ⟨h.failed, h.movedPaths, h.preservedPaths, h.shows, ?_, ?_, ?_, ?_, h.moves, h.keeps,
    hnodup, hsubset, ?_⟩
  · rw [hperm.pairwise_iff Apart.symm, List.pairwise_append]
    refine ⟨?_, hapart.2, fun c hc x hx => ?_⟩
    · rw [List.pairwise_map]
      refine (hvalid.children_nodup _).imp fun hne => ?_
      have hconcat : ∀ a b : JsString, rel ++ [a] <+: rel ++ [b] → a = b := fun a b hpre => by
        simpa using (List.prefix_append_right_inj rel).mp hpre
      exact ⟨fun hpre => hne (hconcat _ _ hpre), fun hpre => hne (hconcat _ _ hpre).symm⟩
    · obtain ⟨hpre, hne, habove, -⟩ := hchild c hc
      obtain ⟨hnot, hnot'⟩ := hapart.1 x hx
      refine ⟨fun hcx => hnot (hpre.trans hcx), fun hxc => ?_⟩
      by_cases hxc' : x = c
      · exact hnot (hxc' ▸ hpre)
      · exact hnot' (habove x hxc hxc')
  · intro q hq
    rcases List.mem_append.mp (hperm.mem_iff.mp hq) with hq | hq
    · obtain ⟨hpre, hne, -, he⟩ := hchild q hq
      refine ⟨fun hnil => ?_, he⟩
      rw [hnil] at hpre hne
      exact hne (List.prefix_nil.mp hpre)
    · exact hstands q (List.mem_cons_of_mem _ hq)
  · intro p o hp
    obtain ⟨q, hq, hpre⟩ := h.covers p o hp
    rw [hqueue, List.cons_append, List.cons_append, List.mem_cons] at hq
    rcases hq with rfl | hq
    · -- a file below the directory is below one of its entries
      obtain ⟨below, rfl⟩ := hpre
      cases below with
      | nil =>
        rw [List.append_nil] at hp
        cases hvalid.unique hp hdir
      | cons c below =>
        refine ⟨q ++ [c], hperm.mem_iff.mpr (List.mem_append_left _ (List.mem_map.mpr
          ⟨c, mem_children.mpr ?_, rfl⟩)), ⟨below, by simp⟩⟩
        by_cases hbelow : below = []
        · exact ⟨.leaf o, by simpa [hbelow] using hp⟩
        · exact ⟨.dir, hvalid.above (by simp) (by simp [hbelow]) ⟨below, by simp⟩ hp⟩
    · exact ⟨q, hperm.mem_iff.mpr (List.mem_append_right _ hq), hpre⟩
  · intro q hq r hr hrq hne
    rcases List.mem_append.mp hq with hq | hq
    · exact h.descends q (hqueue ▸ List.mem_cons_of_mem _ hq) r hr hrq hne
    · have habove := (hchild q hq).2.2.1 r hrq hne
      by_cases heq : r = rel
      · rwa [heq]
      · exact h.descends rel (hqueue ▸ List.mem_cons_self) r hr habove heq
  · intro q hq d hd hpre
    rcases List.mem_append.mp hq with hq | hq
    · exact hbelow q hq d hd hpre
    · obtain ⟨hrelq, hne, -, -⟩ := hchild q hq
      rcases List.mem_append.mp hd with hd | hd
      · exact h.below rel (hqueue ▸ List.mem_cons_self) d hd (hrelq.trans hpre)
      · rw [List.mem_singleton.mp hd] at hpre
        exact hne (hrelq.eq_of_length_le hpre.length_le)

theorem consider (h : Walked files allowlist archive moved preserved popped s)
    (hvalid : Valid files) (hdocumented : ∀ entry ∈ allowlist, Documented entry)
    (hne : archive ≠ bobbit) (hqueue : s.queue = rel :: rest)
    (hfailed : (WalkState.consider { s with queue := rest } env allowlist archive rel).failed = []) :
    ∃ moved' preserved', Walked files allowlist archive moved' preserved' (popped ++ [rel])
      (WalkState.consider { s with queue := rest } env allowlist archive rel) := by
  have hrel : rel ∈ s.queue := hqueue ▸ List.mem_cons_self
  have hapart := h.apart
  rw [hqueue, List.cons_append, List.cons_append, List.pairwise_cons] at hapart
  have hmoved : ∀ m ∈ moved, ¬ m <+: rel ∧ ¬ rel <+: m := fun m hm =>
    ⟨(hapart.1 m (by simp [hm])).2, (hapart.1 m (by simp [hm])).1⟩
  obtain ⟨hnil, e, he⟩ := h.stands rel (by simp [hqueue])
  rw [WalkState.consider] at hfailed ⊢
  split at hfailed
  · rename_i hpres
    rw [if_pos hpres]
    exact ⟨_, _, h.preserve hqueue hpres⟩
  · rename_i hpres
    rw [if_neg hpres]
    -- what is kept at the path or below it is matched below it
    have hkept : ∀ p, rel <+: p → Kept allowlist p →
        ∃ r, r ≠ [] ∧ rel ++ r <+: p ∧ Preserved allowlist (rel ++ r) := by
      rintro p hpre ⟨q, hq, hqp, hqpres⟩
      rcases List.prefix_or_prefix_of_prefix hpre hqp with hsub | hsub
      · obtain ⟨r, rfl⟩ := hsub
        refine ⟨r, fun hr => hpres ?_, hqp, hqpres⟩
        rwa [hr, List.append_nil] at hqpres
      · by_cases heq : q = rel
        · exact absurd (heq ▸ hqpres) hpres
        · exact absurd hqpres (h.descends rel hrel q hq hsub heq)
    have hmove : (∀ p e, (bobbit :: p, e) ∈ files → rel <+: p → ¬ Kept allowlist p) →
        (WalkState.move { s with queue := rest } env archive rel).failed = [] →
        ∃ moved' preserved', Walked files allowlist archive moved' preserved' (popped ++ [rel])
          (WalkState.move { s with queue := rest } env archive rel) := by
      intro hfree hclean
      rw [WalkState.move] at hclean ⊢
      split at hclean
      · simp [WalkState.fail] at hclean
      · exact ⟨_, _, h.move hne hqueue hfree⟩
    split at hfailed
    · simp [WalkState.fail] at hfailed
    · rename_i leaf hlstat
      rw [WalkState.lstat] at hlstat
      split at hlstat
      · cases hlstat
      · rw [h.shows.lookup_eq hvalid hne he fun m hm => (hmoved m hm).1] at hlstat
        refine hmove (fun p e' hp hpre hp' => ?_) hfailed
        obtain ⟨r, hr, hpre', -⟩ := hkept p hpre hp'
        cases e with
        | dir => cases hlstat
        | leaf o =>
          -- nothing lies below a file
          have hlt : rel ≠ p := by
            rintro rfl
            have hlength := hpre'.length_le
            rw [List.length_append] at hlength
            exact hr (List.length_eq_zero_iff.mp (by omega))
          have habove := hvalid.above (List.cons_ne_nil _ _) (by simpa using hlt)
            (List.cons_prefix_cons.mpr ⟨rfl, hpre⟩) hp
          cases hvalid.unique he habove
    · rename_i hlstat
      rw [WalkState.lstat] at hlstat
      split at hlstat
      · cases hlstat
      · rw [h.shows.lookup_eq hvalid hne he fun m hm => (hmoved m hm).1] at hlstat
        cases e with
        | leaf o => cases hlstat
        | dir =>
          dsimp only
          split at hfailed
          · rename_i hcontains
            rw [if_pos hcontains]
            split at hfailed
            · simp [WalkState.fail] at hfailed
            · rw [h.shows.children_eq hne hmoved]
              exact ⟨_, _, h.descend hvalid hqueue he hpres⟩
          · rename_i hcontains
            rw [if_neg hcontains]
            refine hmove (fun p e' hp hpre hp' => ?_) hfailed
            obtain ⟨r, hr, -, hpres'⟩ := hkept p hpre hp'
            exact not_preserved_below hdocumented hnil hr hpres
              (Bool.eq_false_iff.mpr hcontains) hpres'

end Walked

theorem failed_consider {s : WalkState α} {rel : FilePath} (h : s.failed ≠ []) :
    (s.consider env allowlist archive rel).failed ≠ [] := by
  rw [WalkState.consider]
  have hmove : (s.move env archive rel).failed ≠ [] := by
    rw [WalkState.move]
    split
    · simp [WalkState.fail]
    · exact h
  split
  · exact h
  · split
    · simp [WalkState.fail]
    · exact hmove
    · split
      · split
        · simp [WalkState.fail]
        · exact h
      · exact hmove

theorem failed_walk {fuel : Nat} {s : WalkState α} (h : s.failed ≠ []) :
    (s.walk env allowlist archive fuel).failed ≠ [] := by
  induction fuel generalizing s with
  | zero => exact h
  | succ fuel ih =>
    rw [WalkState.walk]
    split
    · exact h
    · exact ih (failed_consider h)

/-- **The walk ends**, every path having been popped at most once. -/
theorem walk_walked {moved preserved popped : List FilePath} {s : WalkState α} {fuel : Nat}
    (h : Walked files allowlist archive moved preserved popped s) (hvalid : Valid files)
    (hdocumented : ∀ entry ∈ allowlist, Documented entry) (hne : archive ≠ bobbit)
    (hfuel : files.length ≤ fuel + popped.length)
    (hfailed : (s.walk env allowlist archive fuel).failed = []) :
    (s.walk env allowlist archive fuel).queue = [] ∧ ∃ moved preserved popped,
      Walked files allowlist archive moved preserved popped (s.walk env allowlist archive fuel) := by
  induction fuel generalizing s moved preserved popped with
  | zero =>
    refine ⟨?_, _, _, _, h⟩
    cases hqueue : s.queue with
    | nil => exact hqueue
    | cons rel rest =>
      -- one more path than there are entries
      obtain ⟨hnodup, hsubset, -⟩ := h.pop hqueue
      have hnodup' : ((popped ++ [rel]).map (bobbit :: ·)).Nodup :=
        hnodup.map fun _ _ heq => (List.cons.inj heq).2
      have hsub : (popped ++ [rel]).map (bobbit :: ·) ⊆ files.map (·.1) := by
        intro x hx
        obtain ⟨d, hd, rfl⟩ := List.mem_map.mp hx
        obtain ⟨e, he⟩ := hsubset d hd
        exact List.mem_map.mpr ⟨_, he, rfl⟩
      have hlength := (hnodup'.subperm hsub).length_le
      simp only [List.length_map, List.length_append, List.length_singleton] at hlength
      omega
  | succ fuel ih =>
    rw [WalkState.walk] at hfailed ⊢
    split at hfailed
    · rename_i hqueue
      exact ⟨hqueue, _, _, _, h⟩
    · rename_i rel rest hqueue
      have hclean : (WalkState.consider { s with queue := rest } env allowlist archive
          rel).failed = [] := by
        by_contra hdirty
        exact failed_walk hdirty hfailed
      obtain ⟨moved', preserved', hstep⟩ := h.consider hvalid hdocumented hne hqueue hclean
      refine ih hstep ?_ hfailed
      rw [List.length_append, List.length_singleton]
      omega

/-! ## The disk after the walk -/

def Fresh (files : Files α) (archive : JsString) : Prop := ∀ x ∈ files, x.1.head? ≠ some archive

theorem children_onDisk (files : Files α) (p : FilePath) :
    children (onDisk files) p = children files p := by
  rw [children, children, onDisk, List.map_map]
  rfl

theorem walked_start (hvalid : Valid files) (hdir : ([bobbit], .dir) ∈ files) :
    Walked files allowlist archive [] [] []
      ⟨mkdir (onDisk files) [archive], (children files [bobbit]).map fun top => [top], [], [], []⟩ := by
  have hplace : ∀ p, placeOf archive [] p = p := by
    intro p
    cases p with
    | nil => rfl
    | cons name rel => exact if_neg fun ⟨_, m, hm, _⟩ => List.not_mem_nil hm
  have hshows : Shows files archive [] (mkdir (onDisk files) [archive]) := by
    obtain ⟨made, hmade, hspec⟩ := mkdir_eq_append (onDisk files) [archive]
    refine ⟨made, ?_, fun x hx => ?_⟩
    · rw [hmade]
      congr 1
      exact ((List.map_congr_left fun e _ => by rw [hplace]; rfl).trans (List.map_id _)).symm
    · rw [(hspec x hx).1]
      exact ⟨rfl, .inl rfl⟩
  refine ⟨rfl, rfl, rfl, hshows, ?_, ?_, ?_, ?_, fun m hm => absurd hm List.not_mem_nil,
    fun q hq => absurd hq List.not_mem_nil, List.nodup_nil,
    fun d hd => absurd hd List.not_mem_nil, fun q _ d hd => absurd hd List.not_mem_nil⟩
  · rw [List.append_nil, List.append_nil, List.pairwise_map]
    refine (hvalid.children_nodup _).imp fun hne => ?_
    simp [Apart, hne, Ne.symm hne]
  · intro q hq
    rw [List.append_nil, List.append_nil] at hq
    obtain ⟨top, htop, rfl⟩ := List.mem_map.mp hq
    exact ⟨List.cons_ne_nil _ _, mem_children.mp htop⟩
  · intro p o hp
    cases p with
    | nil => cases hvalid.unique hp hdir
    | cons top rest =>
      have htop : ∃ e, ([bobbit] ++ [top], e) ∈ files := by
        by_cases hrest : rest = []
        · exact ⟨_, hrest ▸ hp⟩
        · exact ⟨_, hvalid.above (by simp) (by simpa using hrest) ⟨rest, rfl⟩ hp⟩
      refine ⟨[top], ?_, ⟨rest, rfl⟩⟩
      rw [List.append_nil, List.append_nil]
      exact List.mem_map.mpr ⟨top, mem_children.mpr htop, rfl⟩
  · intro q hq r hr hrq hne
    obtain ⟨top, -, rfl⟩ := List.mem_map.mp hq
    rcases List.prefix_concat_iff.mp (show r <+: [] ++ [top] from hrq) with h | h
    · exact absurd h hne
    · exact absurd (List.prefix_nil.mp h) hr

/-- A disk on which every file has its place, and which shows no other one. -/
structure Settled (files : Files α) (allowlist : List JsString) (archive : JsString)
    (disk : Disk α) : Prop where
  kept : ∀ p e, (bobbit :: p, e) ∈ files → Kept allowlist p →
    (bobbit :: p, e.map .original) ∈ disk ∧
      ∀ e', (bobbit :: p, e') ∈ disk → e' = e.map .original
  moved : ∀ p o, (bobbit :: p, .leaf o) ∈ files → ¬ Kept allowlist p →
    (archive :: p, .leaf (.original o)) ∈ disk ∧
      (∀ e', (archive :: p, e') ∈ disk → e' = .leaf (.original o)) ∧
      ∀ e', (bobbit :: p, e') ∈ disk → e' = .dir
  absent : ∀ p o, (bobbit :: p, .leaf o) ∈ files → Kept allowlist p →
    ∀ e, (archive :: p, e) ∉ disk
  archived : ∀ p l, (archive :: p, .leaf l) ∈ disk →
    ∃ o, (bobbit :: p, .leaf o) ∈ files ∧ ¬ Kept allowlist p ∧ l = .original o
  staying : ∀ p l, (bobbit :: p, .leaf l) ∈ disk →
    ∃ o, (bobbit :: p, .leaf o) ∈ files ∧ l = .original o

section Settled

variable {moved preserved popped : List FilePath} {s : WalkState α}

theorem Walked.describes (h : Walked files allowlist archive moved preserved popped s)
    (hqueue : s.queue = []) {p : FilePath} {o : Original α} (hp : (bobbit :: p, .leaf o) ∈ files) :
    ((∃ q ∈ moved, q <+: p) ↔ ¬ Kept allowlist p) ∧
      ((∃ q ∈ preserved, q <+: p) ↔ Kept allowlist p) := by
  have hmoved : (∃ q ∈ moved, q <+: p) → ¬ Kept allowlist p := by
    rintro ⟨q, hq, hpre⟩
    exact h.moves q hq p _ hp hpre
  have hpreserved : (∃ q ∈ preserved, q <+: p) → Kept allowlist p := by
    rintro ⟨q, hq, hpre⟩
    exact ⟨q, (h.stands q (by simp [hq])).1, hpre, h.keeps q hq⟩
  obtain ⟨q, hq, hpre⟩ := h.covers p o hp
  rw [hqueue, List.nil_append, List.mem_append] at hq
  rcases hq with hq | hq
  · exact ⟨⟨hmoved, fun _ => ⟨q, hq, hpre⟩⟩,
      ⟨hpreserved, fun hkept => absurd hkept (hmoved ⟨q, hq, hpre⟩)⟩⟩
  · exact ⟨⟨hmoved, fun hnot => absurd (hpreserved ⟨q, hq, hpre⟩) hnot⟩,
      ⟨hpreserved, fun _ => ⟨q, hq, hpre⟩⟩⟩

/-- After the walk, and with the empty directories made again, every file has its place. -/
theorem Walked.settled (h : Walked files allowlist archive moved preserved popped s)
    (hqueue : s.queue = []) (hvalid : Valid files) (hfresh : Fresh files archive)
    (hne : archive ≠ bobbit) (a b : JsString) :
    Settled files allowlist archive (mkdir (mkdir s.disk [bobbit, a]) [bobbit, b]) := by
  obtain ⟨made, hmade, hspec⟩ := mkdir_eq_append s.disk [bobbit, a]
  obtain ⟨more, hmore, hspec'⟩ := mkdir_eq_append (s.disk ++ made) [bobbit, b]
  rw [hmade, hmore, List.append_assoc]
  -- what is added stands in `.bobbit`, where nothing stood
  have hadded : ∀ x ∈ made ++ more, x.2 = .dir ∧ (∃ n, x.1 = [bobbit, n]) ∧
      ∀ e, (x.1, e) ∉ s.disk := by
    intro x hx
    rcases List.mem_append.mp hx with hx | hx
    · rw [(hspec x hx).1]
      exact ⟨rfl, ⟨a, rfl⟩, (hspec x hx).2⟩
    · rw [(hspec' x hx).1]
      exact ⟨rfl, ⟨b, rfl⟩, fun e he => (hspec' x hx).2 e (List.mem_append_left _ he)⟩
  -- no directory was made in the archive at the path of a file
  have hmadeDir : ∀ p o, (bobbit :: p, .leaf o) ∈ files → ∀ m ∈ moved, ∀ d,
      d <+: m.dropLast → p ≠ d := by
    rintro p o hp m hm d hd rfl
    obtain ⟨hnil, e, he⟩ := h.stands m (by simp [hm])
    have hpre : p <+: m := hd.trans (List.dropLast_prefix m)
    have hlength := hd.length_le
    rw [List.length_dropLast] at hlength
    have hpos := List.length_pos_iff.mpr hnil
    have hlt : p ≠ m := by
      rintro rfl
      omega
    cases hvalid.unique hp (hvalid.above (List.cons_ne_nil _ _) (by simpa using hlt)
      (List.cons_prefix_cons.mpr ⟨rfl, hpre⟩) he)
  have harchive : ∀ p e, (archive :: p, e) ∈ s.disk ++ (made ++ more) →
      (archive :: p, e) ∈ s.disk := by
    intro p e he
    refine (List.mem_append.mp he).resolve_right fun hx => ?_
    obtain ⟨-, ⟨n, hpath⟩, -⟩ := hadded _ hx
    exact hne (List.cons.inj hpath).1
  have hplace : ∀ p e, (bobbit :: p, e) ∈ s.disk → (∃ e₀, (bobbit :: p, e₀) ∈ files ∧
      (∀ m ∈ moved, ¬ m <+: p) ∧ e = e₀.map .original) := by
    intro p e he
    rcases h.shows.cases he with ⟨x, e₀, hx, hxp, rfl⟩ | ⟨-, hpath | ⟨m, -, d, -, hpath⟩⟩
    · obtain ⟨rfl, hnot⟩ := eq_of_placeOf hne hxp
      exact ⟨e₀, hx, hnot, rfl⟩
    · exact absurd (List.cons.inj hpath).1.symm hne
    · exact absurd (List.cons.inj hpath).1.symm hne
  have hplaceArchive : ∀ p e, (archive :: p, e) ∈ s.disk →
      (∃ e₀, (bobbit :: p, e₀) ∈ files ∧ (∃ m ∈ moved, m <+: p) ∧ e = e₀.map .original) ∨
        e = .dir ∧ ∀ o, (bobbit :: p, .leaf o) ∉ files ∨ p = [] := by
    intro p e he
    rcases h.shows.cases he with ⟨x, e₀, hx, hxp, rfl⟩ | ⟨rfl, hpath | ⟨m, hm, d, hd, hpath⟩⟩
    · have hxb := eq_of_placeOf_archive (hfresh _ hx) hxp
      subst hxb
      refine .inl ⟨e₀, hx, ?_, rfl⟩
      by_contra hnone
      push Not at hnone
      rw [placeOf_other hnone] at hxp
      exact hne (List.cons.inj hxp).1.symm
    · exact .inr ⟨rfl, fun o => .inr (List.cons.inj hpath).2⟩
    · refine .inr ⟨rfl, fun o => .inl fun hp => hmadeDir p o hp m hm d hd (List.cons.inj hpath).2⟩
  have hnil : ∀ p o, (bobbit :: p, .leaf o) ∈ files → p ≠ [] := by
    rintro p o hp rfl
    obtain ⟨q, hq, hpre⟩ := h.covers [] o hp
    exact (h.stands q hq).1 (List.prefix_nil.mp hpre)
  refine ⟨fun p e hp hkept => ?_, fun p o hp hnot => ?_, fun p o hp hkept e he => ?_,
    fun p l hl => ?_, fun p l hl => ?_⟩
  · have hstays : ∀ m ∈ moved, ¬ m <+: p := fun m hm hpre => h.moves m hm p e hp hpre hkept
    have hmem := h.shows.mem hp
    rw [placeOf_other hstays] at hmem
    refine ⟨List.mem_append_left _ hmem, fun e' he' => ?_⟩
    rcases List.mem_append.mp he' with he' | he'
    · obtain ⟨e₀, he₀, -, rfl⟩ := hplace p e' he'
      rw [hvalid.unique he₀ hp]
    · exact absurd hmem ((hadded _ he').2.2 _)
  · obtain ⟨m, hm, hpre⟩ := (h.describes hqueue hp).1.mpr hnot
    have hmem := h.shows.mem hp
    rw [placeOf_moved hm hpre] at hmem
    refine ⟨List.mem_append_left _ hmem, fun e' he' => ?_, fun e' he' => ?_⟩
    · rcases hplaceArchive p e' (harchive p e' he') with ⟨e₀, he₀, -, rfl⟩ | ⟨-, hno⟩
      · rw [hvalid.unique he₀ hp]
        rfl
      · exact absurd hp ((hno o).resolve_right (hnil p o hp))
    · rcases List.mem_append.mp he' with he' | he'
      · obtain ⟨e₀, -, hstays, -⟩ := hplace p e' he'
        exact absurd hpre (hstays m hm)
      · exact (hadded _ he').1
  · rcases hplaceArchive p e (harchive p e he) with ⟨e₀, -, hmoved, -⟩ | ⟨-, hno⟩
    · exact (h.describes hqueue hp).1.mp hmoved hkept
    · exact (hno o).elim (fun hnot => hnot hp) (hnil p o hp)
  · rcases hplaceArchive p _ (harchive p _ hl) with ⟨e₀, he₀, hmoved, heq⟩ | ⟨hdir, -⟩
    · cases e₀ with
      | dir => cases heq
      | leaf o =>
        cases heq
        exact ⟨o, he₀, (h.describes hqueue he₀).1.mp hmoved, rfl⟩
    · cases hdir
  · rcases List.mem_append.mp hl with hl | hl
    · obtain ⟨e₀, he₀, -, heq⟩ := hplace p _ hl
      cases e₀ with
      | dir => cases heq
      | leaf o =>
        cases heq
        exact ⟨o, he₀, rfl⟩
    · cases (hadded _ hl).1

end Settled

/-! ## The number of the archive -/

theorem le_foldl_max {l : List Nat} {n a : Nat} : n ≤ l.foldl max a ↔ n ≤ a ∨ ∃ m ∈ l, n ≤ m := by
  induction l generalizing a with
  | nil => simp
  | cons m rest ih => simp [ih, or_assoc]

theorem decimalValue_zeros (k : Nat) (digits : JsString) :
    decimalValue (List.replicate k 0x30 ++ digits) = decimalValue digits := by
  induction k with
  | zero => rfl
  | succ k ih => exact ih

/-- The name of each number up to 999 is read as that number. -/
theorem archiveNumber_padThree {n : Nat} (h : n < 1000) :
    archiveNumber (archiveNameOf (padThree (numberText n))) = some n := by
  have hlength := length_numberText_le (k := 3) (by decide) h
  have hthree : (padThree (numberText n)).length = 3 := by
    rw [padThree, List.length_append, List.length_replicate]
    omega
  have hdigits : (padThree (numberText n)).all isDigit = true := by
    rw [padThree, List.all_append, all_isDigit_numberText, Bool.and_true, List.all_eq_true]
    intro c hc
    rw [(List.mem_replicate.mp hc).2]
    decide
  rw [archiveNumber, archiveNameOf, List.drop_left, hdigits,
    List.isPrefixOf_iff_prefix.mpr (List.prefix_append _ _), hthree, padThree, decimalValue_zeros,
    decimalValue_numberText]
  rfl

theorem archiveNumber_le {entry : JsString} {n : Nat} (h : archiveNumber entry = some n) :
    n ≤ 999 ∧ (n = 999 → entry = archiveNameOf (js "999")) := by
  rw [archiveNumber] at h
  split at h
  · rename_i hentry
    simp only [Bool.and_eq_true, decide_eq_true_eq] at hentry
    obtain ⟨⟨hhead, hlength⟩, hdigits⟩ := hentry
    obtain ⟨digits, rfl⟩ := List.isPrefixOf_iff_prefix.mp hhead
    rw [List.drop_left] at hlength hdigits h
    obtain ⟨a, b, c, rfl⟩ := List.length_eq_three.mp hlength
    simp only [List.all_cons, List.all_nil, Bool.and_true, Bool.and_eq_true, isDigit,
      decide_eq_true_eq, UInt16.le_iff_toNat_le, UInt16.reduceToNat] at hdigits
    cases h
    rw [decimalValue, List.foldl_cons, List.foldl_cons, List.foldl_cons, List.foldl_nil]
    refine ⟨by omega, fun hn => ?_⟩
    have hnine : ∀ u : UInt16, u.toNat = 0x39 → u = 0x39 := fun u hu => UInt16.toNat_inj.mp hu
    rw [hnine a (by omega), hnine b (by omega), hnine c (by omega), archiveNameOf]
    congr 1
  · cases h

/-- The next archive's number is new: the root path can be listed and the numbers have not come
    past 999, or it cannot be listed and there is no first archive. -/
def NewNumber (env : ArchiveEnv α) (files : Files α) : Prop :=
  if env.rootListed then
    ¬ (archiveNameOf (js "999") ∈ children files [] ∧ archiveNameOf (js "1000") ∈ children files [])
  else archiveNameOf (js "001") ∉ children files []

theorem archiveName_mem_iff {files : Files α} :
    archiveName env (onDisk files) ∉ children files [] ↔ NewNumber env files := by
  rw [archiveName, children_onDisk, nextArchiveSuffix, NewNumber]
  cases env.rootListed with
  | false => rw [if_neg Bool.false_ne_true, if_neg Bool.false_ne_true]; rfl
  | true =>
    rw [if_pos rfl, if_pos rfl]
    refine not_congr ?_
    have hle : ((children files []).filterMap archiveNumber).foldl max 0 ≤ 999 := by
      by_contra hlt
      obtain h | ⟨m, hm, hm'⟩ := le_foldl_max.mp (Nat.lt_of_not_le hlt)
      · omega
      · obtain ⟨entry, -, hentry⟩ := List.mem_filterMap.mp hm
        have := (archiveNumber_le hentry).1
        omega
    have hge : ∀ n, n < 1000 → archiveNameOf (padThree (numberText n)) ∈ children files [] →
        n ≤ ((children files []).filterMap archiveNumber).foldl max 0 := fun n hn hmem =>
      le_foldl_max.mpr (.inr ⟨n, List.mem_filterMap.mpr ⟨_, hmem, archiveNumber_padThree hn⟩,
        le_refl n⟩)
    have hlast : padThree (numberText 1000) = js "1000" := by decide +kernel
    constructor
    · intro hmem
      by_cases hlt : ((children files []).filterMap archiveNumber).foldl max 0 < 999
      · have := hge _ (by omega) hmem
        omega
      · have hmax : ((children files []).filterMap archiveNumber).foldl max 0 = 999 := by omega
        rw [hmax, hlast] at hmem
        obtain h | ⟨m, hm, hm'⟩ := le_foldl_max.mp hmax.ge
        · omega
        · obtain ⟨entry, hentry, hnumber⟩ := List.mem_filterMap.mp hm
          have hm999 := (archiveNumber_le hnumber).1
          exact ⟨(archiveNumber_le hnumber).2 (by omega) ▸ hentry, hmem⟩
    · rintro ⟨h999, h1000⟩
      have hmax := hge 999 (by decide) (by
        rwa [show padThree (numberText 999) = js "999" by decide +kernel])
      rwa [show ((children files []).filterMap archiveNumber).foldl max 0 = 999 by omega, hlast]

/-! ## The manifest -/

/-- The manifest is written over no file of the project: no file of its name is moved from the top
    of `.bobbit`, and a link of its name leads to none. -/
def ManifestSpares (env : ArchiveEnv α) (files : Files α) (allowlist : List JsString) : Prop :=
  env.manifestOpens = true → ¬ Preserved allowlist [manifestName] →
    (∀ c, ([bobbit, manifestName], .leaf (.file c)) ∉ files) ∧
      ∀ target q c, ([bobbit, manifestName], .leaf (.link target)) ∈ files →
        env.leads target = some q → (bobbit :: q, .leaf (.file c)) ∉ files

theorem kept_singleton {name : JsString} : Kept allowlist [name] ↔ Preserved allowlist [name] := by
  constructor
  · rintro ⟨q, hq, hpre, hpres⟩
    rcases List.prefix_concat_iff.mp (show q <+: [] ++ [name] from hpre) with h | h
    · rwa [h] at hpres
    · exact absurd (List.prefix_nil.mp h) hq
  · exact fun h => ⟨[name], List.cons_ne_nil _ _, List.prefix_refl _, h⟩

section Manifest

variable {disk : Disk α} {result : ArchiveResult} {path : FilePath}

def WritesOver (env : ArchiveEnv α) (archive : JsString) (disk : Disk α) (path : FilePath) : Prop :=
  env.manifestOpens = true ∧ manifestPath env archive disk = some path ∧
    ∃ c, lookup disk path = some (.leaf (.original (.file c)))

/-- The manifest is written in the archive, or through a link to a file that is not there. -/
theorem manifestPath_cases (hpath : manifestPath env archive disk = some path) :
    (∃ q, path = archive :: q) ∨ ∃ q, path = bobbit :: q ∧ lookup disk (archive :: q) = none := by
  rw [manifestPath] at hpath
  split at hpath
  · obtain ⟨q, -, hplace⟩ := Option.map_eq_some_iff.mp hpath
    split at hplace
    · exact .inl ⟨q, hplace.symm⟩
    · rename_i hgone
      exact .inr ⟨q, hplace.symm, Option.not_isSome_iff_eq_none.mp hgone⟩
  · cases hpath
    exact .inl ⟨_, rfl⟩

namespace Settled

variable (h : Settled files allowlist archive disk)
include h

theorem lookup_archive {p : FilePath} {o : Original α} (hp : (bobbit :: p, .leaf o) ∈ files)
    (hnot : ¬ Kept allowlist p) : lookup disk (archive :: p) = some (.leaf (.original o)) :=
  lookup_of_unique (h.moved p o hp hnot).1 (h.moved p o hp hnot).2.1

/-- The manifest is written over a file iff it does not spare the project's. -/
theorem spares_iff :
    ManifestSpares env files allowlist ↔ ∀ path, ¬ WritesOver env archive disk path := by
  constructor
  · rintro hspares path ⟨hopens, hpath, c, hc⟩
    rw [manifestPath] at hpath
    split at hpath
    · rename_i target hlink
      obtain ⟨o, ho, hnot, heq⟩ := h.archived _ _ (mem_of_lookup hlink)
      cases heq
      obtain ⟨q, hq, hplace⟩ := Option.map_eq_some_iff.mp hpath
      have hfile : ∃ c, (bobbit :: q, .leaf (.file c)) ∈ files := by
        split at hplace
        · subst hplace
          obtain ⟨o, ho, -, heq⟩ := h.archived _ _ (mem_of_lookup hc)
          cases heq
          exact ⟨c, ho⟩
        · subst hplace
          obtain ⟨o, ho, heq⟩ := h.staying _ _ (mem_of_lookup hc)
          cases heq
          exact ⟨c, ho⟩
      obtain ⟨c', hc'⟩ := hfile
      exact (hspares hopens (fun hpres => hnot (kept_singleton.mpr hpres))).2 target q c' ho hq hc'
    · cases hpath
      obtain ⟨o, ho, hnot, heq⟩ := h.archived _ _ (mem_of_lookup hc)
      cases heq
      exact (hspares hopens fun hpres => hnot (kept_singleton.mpr hpres)).1 c ho
  · intro hnone hopens hpres
    have hnot : ¬ Kept allowlist [manifestName] := fun hkept => hpres (kept_singleton.mp hkept)
    refine ⟨fun c hc => ?_, fun target q c htarget hq hc => ?_⟩
    · have hlookup := h.lookup_archive hc hnot
      refine hnone [archive, manifestName] ⟨hopens, ?_, c, hlookup⟩
      rw [manifestPath, hlookup]
    · have hlookup := h.lookup_archive htarget hnot
      by_cases hkept : Kept allowlist q
      · have hgone : lookup disk (archive :: q) = none :=
          lookup_eq_none_iff.mpr (h.absent q _ hc hkept)
        refine hnone (bobbit :: q) ⟨hopens, ?_, c, ?_⟩
        · simp [manifestPath, hlookup, hq, hgone]
        · exact lookup_of_unique (h.kept q _ hc hkept).1 (h.kept q _ hc hkept).2
      · refine hnone (archive :: q) ⟨hopens, ?_, c, h.lookup_archive hc hkept⟩
        simp [manifestPath, hlookup, hq, h.lookup_archive hc hkept]

theorem not_exact_of_writesOver (hover : WritesOver env archive disk path) :
    ¬ ArchivesExactly files allowlist archive result
      (writeManifest env archive disk result) := by
  obtain ⟨hopens, hpath, c, hc⟩ := hover
  have hwritten : (path, .leaf (.manifest result)) ∈ writeManifest env archive disk result := by
    simp only [writeManifest, hopens, hpath, writeFile, hc, Bool.not_true, Bool.false_eq_true,
      if_false]
    exact List.mem_map.mpr ⟨_, mem_of_lookup hc, if_pos rfl⟩
  intro hexact
  rcases manifestPath_cases hpath with ⟨q, rfl⟩ | ⟨q, rfl, -⟩
  · obtain ⟨o, ho, hnot, -⟩ := h.archived q _ (mem_of_lookup hc)
    cases (hexact.moved q o ho hnot).2.1 _ hwritten
  · obtain ⟨o, ho, -⟩ := h.staying q _ (mem_of_lookup hc)
    by_cases hkept : Kept allowlist q
    · cases (hexact.kept q _ ho hkept).2 _ hwritten
    · cases (hexact.moved q o ho hkept).2.2 _ hwritten

/-- Where no file is written over, the manifest is new or not written. -/
theorem writeManifest_cases (hnone : ∀ path, ¬ WritesOver env archive disk path) :
    writeManifest env archive disk result = disk ∨ ∃ path,
      manifestPath env archive disk = some path ∧ (∀ e, (path, e) ∉ disk) ∧
        writeManifest env archive disk result = disk ++ [(path, .leaf (.manifest result))] := by
  rw [writeManifest]
  split
  · exact .inl rfl
  · rename_i hopens
    cases hpath : manifestPath env archive disk with
    | none => exact .inl rfl
    | some path =>
      dsimp only
      rw [writeFile]
      cases hlookup : lookup disk path with
      | none => exact .inr ⟨path, rfl, lookup_eq_none_iff.mp hlookup, rfl⟩
      | some entry =>
        -- the entry is no file
        rcases entry with - | (c | target) | other
        · exact .inl rfl
        · exact absurd ⟨by simpa using hopens, hpath, c, hlookup⟩ (hnone path)
        · exact .inl rfl
        · rcases manifestPath_cases hpath with ⟨q, rfl⟩ | ⟨q, rfl, -⟩
          · obtain ⟨o, -, -, heq⟩ := h.archived q _ (mem_of_lookup hlookup)
            cases heq
          · obtain ⟨o, -, heq⟩ := h.staying q _ (mem_of_lookup hlookup)
            cases heq

/-- Where no file is written over, every file keeps its place. -/
theorem exact_of_not_writesOver (hfresh : Fresh files archive)
    (hdescribed : ∃ moved preserved, Describes files allowlist result moved preserved)
    (hnone : ∀ path, ¬ WritesOver env archive disk path) :
    ArchivesExactly files allowlist archive result (writeManifest env archive disk result) := by
  rcases h.writeManifest_cases hnone with hsame | ⟨path, hpath, hnew, hsame⟩
  · rw [hsame]
    exact ⟨hfresh, h.kept, h.moved, hdescribed⟩
  · rw [hsame]
    -- the one entry more stands where nothing stood
    have hold : ∀ p e e', (p, e) ∈ disk → (p, e') ∈ disk ++ [(path, .leaf (.manifest result))] →
        (p, e') ∈ disk := by
      intro p e e' he he'
      refine (List.mem_append.mp he').resolve_right fun hlast => ?_
      cases List.mem_singleton.mp hlast
      exact hnew e he
    refine ⟨hfresh, fun p e hp hkept => ?_, fun p o hp hnot => ?_, hdescribed⟩
    · obtain ⟨hmem, hunique⟩ := h.kept p e hp hkept
      exact ⟨List.mem_append_left _ hmem, fun e' he' => hunique e' (hold _ _ _ hmem he')⟩
    · obtain ⟨hmem, hunique, hgone⟩ := h.moved p o hp hnot
      refine ⟨List.mem_append_left _ hmem, fun e' he' => hunique e' (hold _ _ _ hmem he'),
        fun e' he' => ?_⟩
      rcases List.mem_append.mp he' with he' | he'
      · exact hgone e' he'
      · cases List.mem_singleton.mp he'
        rcases manifestPath_cases hpath with ⟨q, hq⟩ | ⟨q, hq, hlookup⟩
        · rw [hq] at hnew
          cases (List.cons.inj hq).2
          exact absurd hmem (hnew _)
        · cases (List.cons.inj hq).2
          exact absurd hmem (lookup_eq_none_iff.mp hlookup _)

end Settled

end Manifest

/-! ## Starting fresh -/

theorem archiveName_ne_bobbit (files : Files α) : archiveName env (onDisk files) ≠ bobbit := by
  intro h
  have hhead := congrArg (fun s => s.drop 7) h
  simp only [archiveName, archiveNameOf] at hhead
  have hlong : (js ".bobbit-archive-").drop 7 = js "-archive-" := by decide +kernel
  have hlength : (js ".bobbit-archive-").length = 16 := by decide +kernel
  have hshort : bobbit.drop 7 = [] := by decide +kernel
  rw [List.drop_append_of_le_length (by omega), hlong, hshort] at hhead
  exact absurd (List.append_eq_nil_iff.mp hhead).1 (by decide +kernel)

theorem fresh_iff (hvalid : Valid files) : Fresh files archive ↔ archive ∉ children files [] := by
  rw [Fresh, mem_children, not_exists]
  constructor
  · exact fun h e he => h _ he rfl
  · intro h x hx hhead
    obtain ⟨rest, hrest⟩ : ∃ rest, x.1 = archive :: rest := by
      cases hpath : x.1 with
      | nil => rw [hpath] at hhead; cases hhead
      | cons name rest =>
        rw [hpath] at hhead
        exact ⟨rest, by rw [Option.some.inj hhead]⟩
    have hx' : (archive :: rest, x.2) ∈ files := hrest ▸ hx
    by_cases hnil : rest = []
    · rw [hnil] at hx'
      exact h x.2 hx'
    · exact h .dir (hvalid.above (List.cons_ne_nil _ _) (by simpa using hnil) ⟨rest, rfl⟩ hx')

/-- **Starting fresh.** For every tree of files and every allowlist of the documented shapes, when
    the archiving returns and no move has failed: exactly the project's own data has been archived,
    each file once and with its content, to a directory that is new, iff the next number is new and
    the manifest is written over no file of the project. -/
theorem archivesExactly_iff (env : ArchiveEnv α) (files : Files α) (hvalid : Valid files)
    (rootPath : JsString) (opts : ArchiveOptions)
    (hdocumented : ∀ entry ∈ opts.entries, Documented entry) (result : ArchiveResult)
    (disk : Disk α)
    (hrun : archiveProjectBobbitDir env rootPath opts (onDisk files) = .ok (result, disk))
    (hclean : result.partialFailed = []) :
    ArchivesExactly files opts.entries (archiveName env (onDisk files)) result disk ↔
      NewNumber env files ∧ ManifestSpares env files opts.entries := by
  have hne : archiveName env (onDisk files) ≠ bobbit := archiveName_ne_bobbit files
  have hfreshIff : Fresh files (archiveName env (onDisk files)) ↔ NewNumber env files :=
    (fresh_iff hvalid).trans archiveName_mem_iff
  by_cases hnumber : NewNumber env files
  case neg =>
    exact ⟨fun h => absurd (hfreshIff.mp h.fresh) hnumber, fun h => absurd h.1 hnumber⟩
  have hfresh := hfreshIff.mpr hnumber
  rw [and_iff_right hnumber]
  have hdir : ([bobbit], .dir) ∈ files ∧
      archiveInto env opts (archiveName env (onDisk files)) (onDisk files) = (result, disk) := by
    rw [archiveProjectBobbitDir] at hrun
    split at hrun
    · cases hrun
    · split at hrun
      · cases hrun
      · split at hrun
        · cases hrun
        · cases hrun
        · rename_i hlookup
          obtain ⟨e, he, heq⟩ := mem_onDisk.mp (mem_of_lookup hlookup)
          dsimp only at hrun
          refine ⟨?_, ?_⟩
          · cases e with
            | dir => exact he
            | leaf o => cases heq
          · split at hrun
            · cases hrun
            · split at hrun
              · cases hrun
              · split at hrun
                · cases hrun
                · cases hrun
                · exact Except.ok.inj hrun
  obtain ⟨hdir, hinto⟩ := hdir
  rw [archiveInto, children_onDisk] at hinto
  obtain ⟨rfl, rfl⟩ := Prod.mk.inj hinto
  obtain ⟨hqueue, moved, preserved, popped, hwalked⟩ :=
    walk_walked (walked_start hvalid hdir) hvalid hdocumented hne (by simp [onDisk]) hclean
  have hsettled := hwalked.settled hqueue hvalid hfresh hne (js "config") (js "state")
  rw [hsettled.spares_iff]
  constructor
  · exact fun hexact path hover => hsettled.not_exact_of_writesOver hover hexact
  · refine hsettled.exact_of_not_writesOver hfresh ⟨moved, preserved, ?_, ?_, ?_, ?_, ?_, ?_⟩
    · exact hwalked.movedPaths ▸ List.mergeSort_perm _ _
    · exact hwalked.preservedPaths ▸ List.mergeSort_perm _ _
    · simpa [hqueue] using hwalked.apart
    · exact fun q hq => (hwalked.stands q (by simpa [hqueue] using hq)).2
    · exact fun p o hp => (hwalked.describes hqueue hp).1
    · exact fun p o hp => (hwalked.describes hqueue hp).2

/-! ## Two small projects -/

/-- A file system on which nothing fails. -/
def plainEnv : ArchiveEnv Nat :=
  ⟨true, true, fun name => js "/p/" ++ name, fun _ => none, true, js "2026-01-01T00:00:00.000Z",
    none, fun _ => none, fun _ => none, fun _ => none, true, fun _ => none⟩

/-- A project with its goals and, from the gateway, a token. -/
def plainFiles : Files Nat :=
  [([bobbit], .dir), ([bobbit, js "state"], .dir),
    ([bobbit, js "state", js "goals.json"], .leaf (.file 1)),
    ([bobbit, js "state", js "token"], .leaf (.file 2))]

theorem plainFiles_valid : Valid plainFiles := by
  refine ⟨by decide +kernel, fun p n e he hp => ?_⟩
  have hall : plainFiles.all (fun x => x.1.dropLast = [] || (x.1.dropLast, .dir) ∈ plainFiles) =
      true := by decide +kernel
  have h := List.all_eq_true.mp hall _ he
  simpa [hp] using h

/-- The goals go to the first archive, and the token stays. -/
theorem plain_project_archived :
    ∃ result disk, archiveProjectBobbitDir plainEnv (js "/p") ⟨true, none⟩ (onDisk plainFiles) =
      .ok (result, disk) ∧ ArchivesExactly plainFiles gatewayOwnedFiles
        (archiveName plainEnv (onDisk plainFiles)) result disk := by
  cases hrun : archiveProjectBobbitDir plainEnv (js "/p") ⟨true, none⟩ (onDisk plainFiles) with
  | error thrown =>
    have hok : (archiveProjectBobbitDir plainEnv (js "/p") ⟨true, none⟩
        (onDisk plainFiles)).isOk = true := by decide +kernel
    rw [hrun] at hok
    cases hok
  | ok run =>
    have hclean : (archiveProjectBobbitDir plainEnv (js "/p") ⟨true, none⟩
        (onDisk plainFiles)).toOption.map (·.1.partialFailed) = some [] := by decide +kernel
    rw [hrun] at hclean
    refine ⟨run.1, run.2, rfl, (archivesExactly_iff plainEnv plainFiles plainFiles_valid (js "/p")
      ⟨true, none⟩ gatewayOwnedFiles_documented run.1 run.2 hrun
      (Option.some.inj hclean)).mpr ⟨?_, ?_⟩⟩
    · rw [NewNumber]
      decide +kernel
    · intro _ _
      exact ⟨fun c => by simp [plainFiles, bobbit, manifestName, js_inj],
        fun target q c h => by simp [plainFiles] at h⟩

/-- A project whose only file has the manifest's name. -/
def manifestFiles : Files Nat := [([bobbit], .dir), ([bobbit, manifestName], .leaf (.file 1))]

/-- The file is moved and then lost. -/
theorem manifest_overwritten :
    ∃ result disk, archiveProjectBobbitDir plainEnv (js "/p") ⟨false, none⟩ (onDisk manifestFiles) =
      .ok (result, disk) ∧ result.partialFailed = [] ∧
      ¬ ArchivesExactly manifestFiles [] (js ".bobbit-archive-001") result disk := by
  have hwritten : (archiveProjectBobbitDir plainEnv (js "/p") ⟨false, none⟩
      (onDisk manifestFiles)).toOption.map (fun run => (run.1.partialFailed,
        decide (([js ".bobbit-archive-001", manifestName], .leaf (.manifest run.1)) ∈ run.2))) =
      some ([], true) := by decide +kernel
  cases hrun : archiveProjectBobbitDir plainEnv (js "/p") ⟨false, none⟩ (onDisk manifestFiles) with
  | error thrown =>
    rw [hrun] at hwritten
    cases hwritten
  | ok run =>
    rw [hrun] at hwritten
    obtain ⟨hclean, hmanifest⟩ := Prod.mk.inj (Option.some.inj hwritten)
    refine ⟨run.1, run.2, rfl, hclean, fun hexact => ?_⟩
    have hmoved := hexact.moved [manifestName] (.file 1) (by simp [manifestFiles])
      (by rintro ⟨q, -, -, hq⟩; cases hq)
    cases hmoved.2.1 _ (of_decide_eq_true hmanifest)

end Bobbit.Server.BobbitArchive
