import FileShell.Proofs.Disk.RealPath
import FileShell.Proofs.Disk.Steps

/-!
# Sound disks

A disk is sound if no location stands in it twice, whatever stands somewhere has a name that a
path can hold and stands in a directory, and links hold paths that can be looked up. Changes keep
a disk sound if they put things into directories only (`Sound.insert`, `Sound.write`). On a sound
disk the names in a directory come in the order of their code points, each once
(`sorted_childNames`).
-/

namespace FileShell

/-! ## The order of names -/

namespace Disk

theorem textLe_total : ∀ a b : Text, (textLe a b || textLe b a) = true
  | [], _ => by simp [textLe]
  | _ :: _, [] => by simp [textLe]
  | c :: a, e :: b => by
    have ih := textLe_total a b
    rcases Nat.lt_trichotomy c.toNat e.toNat with h | h | h
    · simp [textLe, h]
    · obtain rfl := Char.toNat_inj.1 h
      simpa [textLe] using ih
    · simp [textLe, h]

theorem textLe_trans : ∀ a b c : Text, textLe a b = true → textLe b c = true → textLe a c = true
  | [], _, _, _, _ => by simp [textLe]
  | _ :: _, [], _, h, _ => by simp [textLe] at h
  | _ :: _, _ :: _, [], _, h => by simp [textLe] at h
  | x :: a, y :: b, z :: c, h, h' => by
    simp only [textLe, Bool.or_eq_true, decide_eq_true_eq, Bool.and_eq_true, beq_iff_eq] at h h' ⊢
    rcases h with h | ⟨rfl, h⟩ <;> rcases h' with h' | ⟨rfl, h'⟩
    · exact .inl (h.trans h')
    · exact .inl h
    · exact .inl h'
    · exact .inr ⟨rfl, textLe_trans a b c h h'⟩

end Disk

/-! ## Sound disks -/

/-- A text that can be the name of something on a disk. -/
structure IsName (x : Text) : Prop where
  plain : IsPlain x
  noSlash : '/' ∉ x
  noNull : '\x00' ∉ x
  short : x.byteSize ≤ Disk.maxName

theorem isName_iff {x : Text} :
    IsName x ↔ IsPlain x ∧ '/' ∉ x ∧ '\x00' ∉ x ∧ x.byteSize ≤ Disk.maxName :=
  ⟨fun h => ⟨h.plain, h.noSlash, h.noNull, h.short⟩, fun ⟨h1, h2, h3, h4⟩ => ⟨h1, h2, h3, h4⟩⟩

instance (x : Text) : Decidable (IsName x) := decidable_of_iff' _ isName_iff

namespace Disk

variable {d : Disk} {l k : Loc} {x : Text} {i : Item}

structure Sound (d : Disk) : Prop where
  nodup : (d.items.map (·.1)).Nodup
  above : ∀ l x, (d.get? (l ++ [x])).isSome → d.isDirectory l = true ∧ IsName x
  links : LinksClean d

theorem Sound.isName (h : Sound d) (hl : (d.get? (l ++ [x])).isSome) : IsName x :=
  (h.above l x hl).2

/-- A disk is sound if each of its items is in its place, which can be checked item by item. -/
theorem sound_of_items (hn : (d.items.map (·.1)).Nodup)
    (ha : ∀ e ∈ d.items, d.isDirectory e.1.dropLast = true ∧ IsName (e.1.getLastD []))
    (hl : ∀ e ∈ d.items, ∀ t, e.2 = .link t → '\x00' ∉ t) : Sound d where
  nodup := hn
  above l x h := by
    obtain ⟨i, hi⟩ := Option.isSome_iff_exists.1 h
    simpa using ha _ (mem_items_of_get? hi (by simp))
  links k t h := by
    by_cases hk : k = []
    · subst hk
      simp [get?] at h
    · exact hl _ (mem_items_of_get? h hk) t rfl

theorem linksFit_of_items
    (h : ∀ e ∈ d.items, ∀ t, e.2 = .link t → (Loc.path e.1).byteSize ≤ maxPath) : LinksFit d :=
  fun k t hk => h _ (mem_items_of_get? hk (by rintro rfl; cases hk)) t rfl

/-- What stands above something is a directory. -/
theorem Sound.isDirectory_of_prefix (h : Sound d) :
    ∀ {a : List Text}, a ≠ [] → (d.get? (l ++ a)).isSome → d.isDirectory l = true := by
  intro a
  induction a using List.reverseRecOn with
  | nil => intro ha; exact absurd rfl ha
  | append_singleton a x ih =>
    intro _ hs
    rw [← List.append_assoc] at hs
    have hd := (h.above _ _ hs).1
    by_cases ha : a = []
    · simpa [ha] using hd
    · exact ih ha (by simp [isDirectory_iff.1 hd])

theorem Sound.isName_of_mem (h : Sound d) {a : List Text} (ha : (d.get? (l ++ a)).isSome) :
    ∀ x ∈ a, IsName x := by
  induction a using List.reverseRecOn with
  | nil => simp
  | append_singleton a x ih =>
    rw [← List.append_assoc] at ha
    obtain ⟨hd, hx⟩ := h.above _ _ ha
    intro y hy
    rcases List.mem_append.1 hy with hy | hy
    · exact ih (by rw [isDirectory_iff.1 hd]; rfl) y hy
    · exact List.mem_singleton.1 hy ▸ hx

theorem Sound.isDirectory_dropLast (h : Sound d) (hl : d.isDirectory l = true) :
    d.isDirectory l.dropLast = true := by
  rcases List.eq_nil_or_concat l with rfl | ⟨k, x, rfl⟩
  · rfl
  · rw [List.concat_eq_append] at hl ⊢
    rw [List.dropLast_concat]
    exact (h.above k x (by rw [isDirectory_iff.1 hl]; rfl)).1

theorem Sound.insert (h : Sound d) (hl : d.isDirectory l = true) (hx : IsName x)
    (hi : d.isDirectory (l ++ [x]) = true → i = .directory) (ht : ∀ t, i = .link t → '\x00' ∉ t) :
    Sound (d.insert (l ++ [x]) i) where
  nodup := by
    simp only [Disk.insert, erase, List.map_cons, List.nodup_cons]
    refine ⟨by simp, ?_⟩
    exact h.nodup.sublist (List.filter_sublist.map _)
  above m y hm := by
    rw [get?_append_insert] at hm
    have hmy : d.isDirectory m = true ∧ IsName y := by
      split at hm
      · rename_i he
        obtain ⟨rfl, he⟩ := List.append_inj' he rfl
        obtain rfl : y = x := by simpa using he
        exact ⟨hl, hx⟩
      · exact h.above m y hm
    refine ⟨?_, hmy.2⟩
    rw [isDirectory_iff, get?_append_insert]
    split
    · rename_i he
      rw [hi (he ▸ hmy.1)]
    · exact isDirectory_iff.1 hmy.1
  links m t hm := by
    rw [get?_append_insert] at hm
    split at hm
    · exact ht t (by simpa using hm)
    · exact h.links m t hm

theorem Sound.write (h : Sound d) (hl : d.isDirectory l = true) (hx : IsName x)
    (hd : d.isDirectory (l ++ [x]) = false) (b : Bytes) : Sound (d.write (l ++ [x]) b) := by
  unfold Disk.write
  split
  · exact h
  · exact h.insert hl hx (fun e => by simp [hd] at e) (fun _ e => by simp at e)

/-! ## Making directories -/

/-- A disk with more directories, where nothing stood, and no other difference. -/
def MoreDirectories (d d' : Disk) : Prop :=
  ∀ k, d'.get? k = d.get? k ∨ (d.get? k = none ∧ d'.get? k = some .directory)

theorem MoreDirectories.refl (d : Disk) : MoreDirectories d d := fun _ => .inl rfl

theorem MoreDirectories.trans {d d' d'' : Disk} (h : MoreDirectories d d')
    (h' : MoreDirectories d' d'') : MoreDirectories d d'' := by
  intro k
  rcases h' k with h₂ | ⟨h₂, h₃⟩
  · rw [h₂]
    exact h k
  · rcases h k with h₁ | ⟨-, h₁⟩
    · exact .inr ⟨h₁ ▸ h₂, h₃⟩
    · simp [h₁] at h₂

theorem MoreDirectories.get? {d d' : Disk} (h : MoreDirectories d d') (hi : d.get? k = some i) :
    d'.get? k = some i := by
  rcases h k with h | ⟨h, -⟩
  · rw [h, hi]
  · simp [hi] at h

/-- What is not a directory was there before. -/
theorem MoreDirectories.get?_iff {d d' : Disk} (h : MoreDirectories d d') (hi : i ≠ .directory) :
    d'.get? k = some i ↔ d.get? k = some i := by
  refine ⟨fun h' => ?_, h.get?⟩
  rcases h k with h | ⟨-, h⟩
  · rw [← h, h']
  · rw [h'] at h
    exact absurd (Option.some.inj h) hi

theorem MoreDirectories.keeps {d d' : Disk} (h : MoreDirectories d d') : Keeps d d' where
  directory hl := isDirectory_iff.2 (h.get? (isDirectory_iff.1 hl))
  link := h.get?_iff (by simp)

variable {p : Path} {d' : Disk}

theorem moreDirectories_makeDir (h : d.makeDir p = .ok d') : MoreDirectories d d' := by
  obtain ⟨m, x, -, -, hn, rfl⟩ := makeDir_eq_ok_iff.1 h
  intro k
  rw [get?_append_insert]
  split_ifs with hk
  · exact .inr ⟨hk ▸ hn, rfl⟩
  · exact .inl rfl

theorem Sound.makeDir (h : Sound d) (hm : d.makeDir p = .ok d') :
    Sound d' ∧ MoreDirectories d d' := by
  refine ⟨?_, moreDirectories_makeDir hm⟩
  obtain ⟨m, x, hl, hx, hn, rfl⟩ := makeDir_eq_ok_iff.1 hm
  obtain ⟨hp, hd, hb, a, ha, -⟩ := locateLast_eq_ok_iff.1 hl
  have hmem : x ∈ p.names := by simp [ha]
  have hname : IsName x := {
    plain := isPlain_of_isDots hx (Path.ne_nil_of_mem_names hmem)
    noSlash := Path.not_mem_of_mem_names hmem
    noNull := fun h0 => (checkPath_eq_ok_iff.1 hp).2.1 (Path.mem_of_mem_names hmem h0)
    short := hb }
  exact h.insert hd hname (fun _ => rfl) fun _ e => by simp at e

theorem moreDirectories_of_makes (h : Relation.ReflTransGen Makes d d') : MoreDirectories d d' := by
  induction h with
  | refl => exact .refl d
  | tail _ hm ih =>
    obtain ⟨q, hq⟩ := hm
    exact ih.trans (moreDirectories_makeDir hq)

theorem Sound.of_makes (h : Sound d) (hm : Relation.ReflTransGen Makes d d') : Sound d' := by
  induction hm with
  | refl => exact h
  | tail _ hm ih =>
    obtain ⟨q, hq⟩ := hm
    exact (ih.makeDir hq).1

/-- Making directories makes nothing else, whether it succeeds or fails. -/
theorem Sound.makeDirs (existOk : Bool) (p : Path) (h : Sound d) :
    Sound (d.makeDirs existOk p).2 ∧ MoreDirectories d (d.makeDirs existOk p).2 :=
  ⟨h.of_makes (makes_makeDirs existOk d p), moreDirectories_of_makes (makes_makeDirs existOk d p)⟩

/-! ## Names in a directory -/

theorem childName?_eq_some_iff : childName? l k = some x ↔ k = l ++ [x] := by
  unfold childName?
  rcases List.eq_nil_or_concat k with rfl | ⟨m, y, rfl⟩
  · simp
  · simp only [List.concat_eq_append, List.reverse_append, List.reverse_cons, List.reverse_nil,
      List.nil_append, List.singleton_append, List.reverse_reverse]
    constructor
    · intro h
      split_ifs at h with hm
      rw [hm, Option.some.inj h]
    · intro h
      obtain ⟨rfl, h⟩ := List.append_inj' h rfl
      simpa using h

theorem isSome_get?_iff (hk : k ≠ []) : (d.get? k).isSome ↔ k ∈ d.items.map (·.1) := by
  constructor
  · intro h
    obtain ⟨i, hi⟩ := Option.isSome_iff_exists.1 h
    exact List.mem_map.2 ⟨_, mem_items_of_get? hi hk, rfl⟩
  · intro h
    obtain ⟨n, r, rfl⟩ := List.exists_cons_of_ne_nil hk
    obtain ⟨e, he, hek⟩ := List.mem_map.1 h
    rcases hl : d.items.lookup (n :: r) with _ | i
    · have := List.lookup_eq_none_iff.1 hl e he
      simp [hek] at this
    · simp [get?, hl]

theorem mem_childNames : x ∈ d.childNames l ↔ (d.get? (l ++ [x])).isSome := by
  rw [isSome_get?_iff (by simp)]
  simp [childNames, childName?_eq_some_iff]

theorem nodup_childNames (h : Sound d) (l : Loc) : (d.childNames l).Nodup := by
  refine (List.mergeSort_perm _ _).nodup_iff.2 ?_
  have he : (d.items.filterMap fun e => childName? l e.1) =
      (d.items.map (·.1)).filterMap (childName? l) := by
    rw [List.filterMap_map]
    rfl
  rw [he]
  refine h.nodup.filterMap fun k m x hk hm => ?_
  rw [Option.mem_def, childName?_eq_some_iff] at hk hm
  rw [hk, hm]

/-- The names in a directory come in their order, each once. -/
theorem sorted_childNames (h : Sound d) (l : Loc) :
    (d.childNames l).Pairwise fun a b => textLe a b = true ∧ a ≠ b :=
  (List.pairwise_mergeSort textLe_trans textLe_total _).and (nodup_childNames h l)

/-! ## What a path leads to -/

variable {q : Path} {m : Loc}

/-- On a sound disk no walk ends at a link. -/
theorem Leads.not_link (hs : Sound d) {here : Loc} {a : List Text} {c : Nat}
    (h : Leads d here a c l) (hh : ∀ t, d.get? here ≠ some (.link t)) :
    ∀ t, d.get? l ≠ some (.link t) := by
  induction h with
  | done => exact hh
  | stay _ _ _ ih => exact ih hh
  | @back here _ _ _ hd _ ih =>
    refine ih fun t ht => ?_
    rw [isDirectory_iff.1 (hs.isDirectory_dropLast hd)] at ht
    cases ht
  | name _ _ _ hn _ ih => exact ih hn
  | @link here s t _ _ _ hd _ _ _ _ ih =>
    refine ih fun u hu => ?_
    unfold linkBase at hu
    split at hu
    · simp [get?] at hu
    · exact hh u hu

theorem Sound.not_link_of_locate (hs : Sound d) (h : d.locate true p = .ok l) (t : Path) :
    d.get? l ≠ some (.link t) := by
  obtain ⟨_, -, hl⟩ := at_of_locate h
  exact hl.not_link hs (by simp [get?]) t

/-- What can be written to is neither a directory nor a link. -/
theorem Sound.of_locateWrite (hs : Sound d) (h : d.locateWrite p = .ok m) :
    m ≠ [] ∧ d.get? m ≠ some .directory ∧ ∀ t, d.get? m ≠ some (.link t) := by
  obtain ⟨-, hl, hd⟩ := locateWrite_eq_ok_iff.1 h
  have hdir : d.get? m ≠ some .directory := by simpa [isDirectory] using hd
  exact ⟨fun e => by simp [e, get?] at hdir, hdir, hs.not_link_of_locate hl⟩

theorem locateWrite_of_keeps (hk : Keeps d d') (h : d.locateWrite p = .ok m) :
    d'.locate true p = .ok m := by
  obtain ⟨he, hl, -⟩ := locateWrite_eq_ok_iff.1 h
  exact ((at_of_locate hl).of_keeps hk).locate (locate_eq_ok_iff.1 hl).1 (.inr he)

theorem locate_getLast? (h : d.locate true p = .ok l) (hd : d.isDirectory l = false) :
    p.getLast? ≠ some '/' := by
  obtain ⟨-, c, hc, hl⟩ := locate_eq_ok_iff.1 h
  intro he
  rw [Path.steps, he, beq_self_eq_true, if_pos rfl] at hl
  have := (walk_into_eq_ok_iff.1 (walk_eq_ok_iff.2 ⟨c, hc, hl⟩)).1
  rw [hd] at this
  cases this

/-- Names that can be looked up lead into a directory, even if nothing stands at their end. -/
theorem Leads.stands (hs : Sound d) {here : Loc} {a : List Text} {c : Nat} (h : Leads d here a c l)
    (hh : here = [] ∨ d.isDirectory here.dropLast = true ∧ IsName (here.getLastD []))
    (ha : ∀ x ∈ a, '/' ∉ x ∧ '\x00' ∉ x) :
    l = [] ∨ d.isDirectory l.dropLast = true ∧ IsName (l.getLastD []) := by
  have there : ∀ {k : Loc}, (d.get? k).isSome →
      k = [] ∨ d.isDirectory k.dropLast = true ∧ IsName (k.getLastD []) := by
    intro k hk
    rcases List.eq_nil_or_concat k with rfl | ⟨k, x, rfl⟩
    · exact .inl rfl
    · rw [List.concat_eq_append] at hk ⊢
      rw [List.dropLast_concat, List.getLastD_concat]
      exact .inr (hs.above k x hk)
  induction h with
  | done => exact hh
  | stay _ _ _ ih => exact ih hh fun x hx => ha x (List.mem_cons_of_mem _ hx)
  | back hd _ ih =>
    refine ih (there ?_) fun x hx => ha x (List.mem_cons_of_mem _ hx)
    rw [isDirectory_iff.1 (hs.isDirectory_dropLast hd)]
    rfl
  | @name here x _ _ _ hd hx hb _ _ ih =>
    refine ih (.inr ?_) fun y hy => ha y (List.mem_cons_of_mem _ hy)
    rw [List.dropLast_concat, List.getLastD_concat]
    exact ⟨hd, hx, (ha x List.mem_cons_self).1, (ha x List.mem_cons_self).2, hb⟩
  | @link here x t _ _ _ _ _ _ ht _ ih =>
    refine ih ?_ fun y hy => ?_
    · unfold linkBase
      split_ifs
      · exact .inl rfl
      · exact hh
    · rcases List.mem_append.1 hy with hy | hy
      · unfold Path.steps at hy
        rcases List.mem_append.1 hy with hy | hy
        · exact ⟨Path.not_mem_of_mem_names hy,
            fun hc => hs.links _ t ht (Path.mem_of_mem_names hy hc)⟩
        · split_ifs at hy
          · obtain rfl := List.mem_singleton.1 hy
            simp
          · exact absurd hy List.not_mem_nil
      · exact ha y (List.mem_cons_of_mem _ hy)

/-- Writing where a path leads keeps a disk sound. -/
theorem Sound.write_of_locateWrite (hs : Sound d) (h : d.locateWrite p = .ok m) (b : Bytes) :
    Sound (d.write m b) := by
  obtain ⟨hne, -, -⟩ := hs.of_locateWrite h
  obtain ⟨-, hl, hd⟩ := locateWrite_eq_ok_iff.1 h
  obtain ⟨hp, c, -, hl⟩ := locate_eq_ok_iff.1 hl
  have h0 := (checkPath_eq_ok_iff.1 hp).2.1
  have hstands := (leads_steps hl).stands hs (.inl rfl) fun x hx =>
    ⟨Path.not_mem_of_mem_names hx, fun hc => h0 (Path.mem_of_mem_names hx hc)⟩
  obtain ⟨k, x, rfl⟩ := (List.eq_nil_or_concat m).resolve_left hne
  rw [List.concat_eq_append] at hstands hd ⊢
  rw [List.dropLast_concat, List.getLastD_concat] at hstands
  obtain ⟨hk, hx⟩ := hstands.resolve_left (by simp)
  exact hs.write hk hx hd b

theorem Sound.keeps_write (hs : Sound d) (h : d.locateWrite p = .ok m) (b : Bytes) :
    Keeps d (d.write m b) := by
  obtain ⟨hne, hdir, hlink⟩ := hs.of_locateWrite h
  refine (write_filledBelow (l := []) List.nil_prefix hne ?_).keeps
  rcases hi : d.get? m with _ | i
  · exact .inl rfl
  · rw [hi] at hdir hlink
    cases i with
    | directory => exact absurd rfl hdir
    | file c => exact .inr (.inl ⟨c, rfl⟩)
    | link t => exact absurd rfl (hlink t)
    | device => exact .inr (.inr rfl)

/-- A place that was written to can be written to again. -/
theorem Sound.locateWrite_write (hs : Sound d) (h : d.locateWrite p = .ok m) (b : Bytes) :
    (d.write m b).locateWrite p = .ok m := by
  obtain ⟨hl, -, hd⟩ := locateWrite_eq_ok_iff.1 h
  refine locateWrite_eq_ok_iff.2 ⟨hl, locateWrite_of_keeps (hs.keeps_write h b) h, ?_⟩
  rwa [isDirectory_write b (hs.of_locateWrite h).1 hd]

end Disk

end FileShell
