import MediaFramework.Mp4.ItemBuilding

/-!
# The order of the boxes of an item table

Boxes that are all read, in any two orders, make the same images, except where the references come
too late in one of the orders only.
-/

namespace MediaFramework.Mp4.Heif

namespace ItemTable

/-- The table after calls of `parse` that all return `OK`. -/
def parseAll (source : DataSource) : ItemTable → List Box → Option ItemTable
  | t, [] => some t
  | t, b :: bs =>
    (t.parse source b).bind fun r => if r.2 = .OK then parseAll source r.1 bs else none

/-- One box of each kind that a table needs, and no two of a kind. -/
structure Collection (bs : List Box) : Prop where
  known : ∀ b ∈ bs, ∃ k : BoxKind, b.type = k.type
  distinct : (bs.map Box.type).Nodup
  needed : ∀ k : BoxKind, k ≠ .idat → k ≠ .iref → ∃ b ∈ bs, b.type = k.type

/-- The `iref` box is read after the images were built. -/
def IrefLate (source : DataSource) : ItemTable → List Box → Prop
  | _, [] => False
  | t, b :: bs =>
    b.type = BoxKind.iref.type ∧ t.mImageItemsValid = true ∨
      ∃ r ∈ t.parse source b, r.2 = .OK ∧ IrefLate source r.1 bs

instance decidableIrefLate (source : DataSource) :
    ∀ (t : ItemTable) (bs : List Box), Decidable (IrefLate source t bs)
  | _, [] => isFalse id
  | t, b :: bs =>
    have : ∀ t', Decidable (IrefLate source t' bs) := fun t' => decidableIrefLate source t' bs
    inferInstanceAs (Decidable (_ ∧ _ ∨ ∃ r ∈ t.parse source b, r.2 = .OK ∧ IrefLate source r.1 bs))

/-- No reference of a kind that changes images is from one of these images. -/
def IrefIdle (source : DataSource) (bs : List Box) (items : KeyedVector Nat ImageItem) : Prop :=
  ∀ b ∈ bs, b.type = BoxKind.iref.type → ∀ ref ∈ (alone source b).mItemReferences, Idle ref items

variable {source : DataSource} {bs bs' : List Box} {t t' : ItemTable} {seen seen' : Finset Nat}

theorem Collection.perm (h : Collection bs) (hperm : bs.Perm bs') : Collection bs' where
  known b hb := h.known b (hperm.mem_iff.mpr hb)
  distinct := (hperm.map Box.type).nodup_iff.mp h.distinct
  needed k hidat hiref := by
    obtain ⟨b, hb, hk⟩ := h.needed k hidat hiref
    exact ⟨b, hperm.mem_iff.mp hb, hk⟩

theorem Collection.unique (h : Collection bs) {b b' : Box} (hb : b ∈ bs) (hb' : b' ∈ bs)
    (htype : b.type = b'.type) : b = b' := List.inj_on_of_nodup_map h.distinct hb hb' htype

/-- What is in a table that has read the boxes of some types. -/
structure Reads (source : DataSource) (bs : List Box) (seen : Finset Nat) (t : ItemTable) : Prop where
  here : ∀ k : BoxKind, k.type ∈ seen → ∃ b ∈ bs, b.type = k.type ∧ t.Same (alone source b) k ∧
    (({} : ItemTable).read source b).2 = .OK
  unseen : ∀ k : BoxKind, k.type ∉ seen → t.Same {} k
  required : ∀ x, x ∈ t.mRequiredBoxes ↔ x ∈ ({} : Contents).mRequiredBoxes ∨
    ∃ b ∈ bs, b.type ∈ seen ∧ x ∈ (alone source b).mRequiredBoxes
  images : t.toImages = { mPrimaryItemId := t.mPrimaryItemId }

theorem Reads.start (source : DataSource) (bs : List Box) : Reads source bs ∅ {} where
  here := fun _ hk => absurd hk (Finset.notMem_empty _)
  unseen := fun k _ => Same.refl _ k
  required := fun _ => ⟨.inl, fun h => h.elim id fun ⟨_, _, hb, _⟩ => absurd hb (Finset.notMem_empty _)⟩
  images := rfl

theorem Reads.read (hbs : Collection bs) (h : Reads source bs seen t) {b : Box} (hb : b ∈ bs) {k : BoxKind}
    (hk : b.type = k.type) (hnew : k.type ∉ seen) (hok : (t.read source b).2 = .OK) :
    Reads source bs (insert k.type seen) (t.read source b).1 := by
  have hfresh := h.unseen k hnew
  obtain ⟨hsame, hstatus⟩ : (t.read source b).1.Same (alone source b) k ∧
      (t.read source b).2 = (({} : ItemTable).read source b).2 := read_same hk hfresh
  constructor
  case here =>
    intro k' hk'
    obtain heq | hseen := Finset.mem_insert.mp hk'
    · obtain rfl := BoxKind.type_injective heq
      exact ⟨b, hb, hk, hsame, hstatus ▸ hok⟩
    · obtain ⟨b', hb', htype, hsame', hok'⟩ := h.here k' hseen
      have hne : k' ≠ k := by
        rintro rfl
        exact hnew hseen
      exact ⟨b', hb', htype, (read_other hk hne).trans hsame', hok'⟩
  case unseen =>
    intro k' hk'
    rw [Finset.mem_insert, not_or] at hk'
    have hne : k' ≠ k := by
      rintro rfl
      exact hk'.1 rfl
    exact (read_other hk hne).trans (h.unseen k' hk'.2)
  case required =>
    intro x
    have hbase : ({} : Contents).mRequiredBoxes ⊆ t.mRequiredBoxes :=
      fun y hy => (h.required y).mpr (.inl hy)
    rw [read_required hk hfresh hbase, Finset.mem_union, h.required]
    constructor
    · rintro ((hx | ⟨b', hb', hseen, hx⟩) | hx)
      · exact .inl hx
      · exact .inr ⟨b', hb', Finset.mem_insert_of_mem hseen, hx⟩
      · exact .inr ⟨b, hb, hk ▸ Finset.mem_insert_self _ _, hx⟩
    · rintro (hx | ⟨b', hb', hseen, hx⟩)
      · exact .inl (.inl hx)
      · obtain heq | hseen := Finset.mem_insert.mp hseen
        · obtain rfl := hbs.unique hb' hb (heq.trans hk.symm)
          exact .inr hx
        · exact .inl (.inr ⟨b', hb', hseen, hx⟩)
  case images =>
    rw [(read_images t source b).1, h.images]

theorem Reads.base (h : Reads source bs seen t) (hreq : t.mRequiredBoxes ⊆ seen) {k : BoxKind}
    (hidat : k ≠ .idat) (hiref : k ≠ .iref) : k.type ∈ seen := by
  refine hreq ((h.required k.type).mpr (.inl ?_))
  cases k <;> first | contradiction | decide

theorem Reads.same (hbs : Collection bs) (hperm : bs.Perm bs') (h : Reads source bs seen t)
    (h' : Reads source bs' seen' t') {k : BoxKind} (hk : k.type ∈ seen) (hk' : k.type ∈ seen') :
    t.Same t' k := by
  obtain ⟨b, hb, htype, hsame, -⟩ := h.here k hk
  obtain ⟨b', hb', htype', hsame', -⟩ := h'.here k hk'
  obtain rfl := hbs.unique hb (hperm.mem_iff.mpr hb') (htype.trans htype'.symm)
  exact hsame.trans hsame'.symm

/-- The `idat` box is left out only where no item is in it. -/
theorem Reads.noIdat (h : Reads source bs seen t) (hreq : t.mRequiredBoxes ⊆ seen)
    (hidat : BoxKind.idat.type ∉ seen) : t.NoIdat := by
  have hiloc : BoxKind.iloc.type ∈ seen := h.base hreq (by decide) (by decide)
  obtain ⟨b, hb, htype, hsame, hok⟩ := h.here .iloc hiloc
  have hsame : t.mItemLocs = (alone source b).mItemLocs := hsame
  intro id loc hloc
  rw [hsame] at hloc
  refine alone_iloc htype hok (fun hmem => ?_) hloc
  exact hidat (hreq ((h.required _).mpr (.inr ⟨b, hb, htype ▸ hiloc, hmem⟩)))

/-- The `iref` box is left out only where there is no grid and no Exif item. -/
theorem Reads.noExif (h : Reads source bs seen t) (hreq : t.mRequiredBoxes ⊆ seen)
    (hiref : BoxKind.iref.type ∉ seen) :
    ∀ info ∈ t.mItemInfos, info.itemType ≠ FOURCC 'E' 'x' 'i' 'f' := by
  have hiinf : BoxKind.iinf.type ∈ seen := h.base hreq (by decide) (by decide)
  obtain ⟨b, hb, htype, hsame, hok⟩ := h.here .iinf hiinf
  have hsame : t.mItemInfos = (alone source b).mItemInfos := hsame
  intro info hinfo
  rw [hsame] at hinfo
  refine (alone_iinf htype hok (fun hmem => ?_) hinfo).2
  exact hiref (hreq ((h.required _).mpr (.inr ⟨b, hb, htype ▸ hiinf, hmem⟩)))

theorem Reads.idle (h : Reads source bs seen t) {items : KeyedVector Nat ImageItem}
    (hidle : IrefIdle source bs items) : ∀ ref ∈ t.mItemReferences, Idle ref items := by
  intro ref href
  by_cases hiref : BoxKind.iref.type ∈ seen
  · obtain ⟨b, hb, htype, hsame, -⟩ := h.here .iref hiref
    have hsame : t.mItemReferences = (alone source b).mItemReferences := hsame
    exact hidle b hb htype ref (hsame ▸ href)
  · have hnone : t.mItemReferences = [] := h.unseen .iref hiref
    rw [hnone] at href
    cases href

theorem sameReferences (hbs : Collection bs) (hperm : bs.Perm bs') (h : Reads source bs seen t)
    (h' : Reads source bs' seen' t') (hreq : t.mRequiredBoxes ⊆ seen)
    (hreq' : t'.mRequiredBoxes ⊆ seen') {t₁ : ItemTable} (hbuild : t.build source = some (t₁, .OK))
    (hiref : (BoxKind.iref.type ∈ seen ↔ BoxKind.iref.type ∈ seen') ∨
      IrefIdle source bs t₁.mItemIdToItemMap) : SameReferences source t t' := by
  by_cases hboth : BoxKind.iref.type ∈ seen ↔ BoxKind.iref.type ∈ seen'
  · by_cases hseen : BoxKind.iref.type ∈ seen
    · exact .inl (h.same hbs hperm h' hseen (hboth.mp hseen))
    · have hnone : t.mItemReferences = [] := h.unseen .iref hseen
      have hnone' : t'.mItemReferences = [] := h'.unseen .iref (fun hmem => hseen (hboth.mpr hmem))
      exact .inl (hnone.trans hnone'.symm)
  · have hidle := hiref.resolve_left hboth
    have hinfos : t.mItemInfos = t'.mItemInfos :=
      h.same hbs hperm h' (k := .iinf) (h.base hreq (by decide) (by decide))
        (h'.base hreq' (by decide) (by decide))
    have hexif : ∀ info ∈ t.mItemInfos, info.itemType ≠ FOURCC 'E' 'x' 'i' 'f' := by
      by_cases hseen : BoxKind.iref.type ∈ seen
      · rw [hinfos]
        exact h'.noExif hreq' fun hseen' => hboth ⟨fun _ => hseen', fun _ => hseen⟩
      · exact h.noExif hreq hseen
    refine .inr ⟨fun id => ?_, hexif, fun t₀ hitems ref href => ?_⟩
    · rw [h.images]
      rfl
    · obtain ⟨t₀', hitems', hkeys⟩ := build_sameKeys hbuild
      rw [hitems] at hitems'
      obtain rfl := (Prod.mk.inj (Option.some.inj hitems')).1
      have hidle' : IrefIdle source bs' t₁.mItemIdToItemMap :=
        fun b hb => hidle b (hperm.mem_iff.mpr hb)
      have hany : Idle ref t₁.mItemIdToItemMap :=
        href.elim (h.idle hidle ref) (h'.idle hidle' ref)
      exact fun htype => (hkeys _).mp (hany htype)

/-- Two readings that are complete make the same images. -/
theorem build_images_eq (hbs : Collection bs) (hperm : bs.Perm bs') (h : Reads source bs seen t)
    (h' : Reads source bs' seen' t') (hreq : t.mRequiredBoxes ⊆ seen)
    (hreq' : t'.mRequiredBoxes ⊆ seen') {t₁ t₁' : ItemTable}
    (hbuild : t.build source = some (t₁, .OK)) (hbuild' : t'.build source = some (t₁', .OK))
    (hiref : (BoxKind.iref.type ∈ seen ↔ BoxKind.iref.type ∈ seen') ∨
      IrefIdle source bs t₁.mItemIdToItemMap) : t₁.toImages = t₁'.toImages := by
  have hsame : ∀ k : BoxKind, k ≠ .idat → k ≠ .iref → t.Same t' k := fun k hidat hiref =>
    h.same hbs hperm h' (h.base hreq hidat hiref) (h'.base hreq' hidat hiref)
  have hprimary : t.mPrimaryItemId = t'.mPrimaryItemId := hsame .pitm (by decide) (by decide)
  have hother : t.other t' = t' :=
    other_eq hsame (by rw [h.images, h'.images, hprimary])
  have hlocs : t.mItemLocs = t'.mItemLocs := hsame .iloc (by decide) (by decide)
  have hidat : t.mIdatOffset = t'.mIdatOffset ∧ t.mIdatSize = t'.mIdatSize ∨ t.NoIdat := by
    by_cases hseen : BoxKind.idat.type ∈ seen
    · by_cases hseen' : BoxKind.idat.type ∈ seen'
      · exact .inl (h.same hbs hperm h' hseen hseen')
      · refine .inr ?_
        rw [NoIdat, hlocs]
        exact h'.noIdat hreq' hseen'
    · exact .inr (h.noIdat hreq hseen)
  have hbuilt := build_other hidat (sameReferences hbs hperm h h' hreq hreq' hbuild hiref)
  rw [hother, hbuild', hbuild] at hbuilt
  cases hbuilt
  rfl

/-! ### Runs -/

/-- Not all that is required has been seen. -/
structure Pending (source : DataSource) (bs : List Box) (seen : Finset Nat) (t : ItemTable) : Prop where
  reads : Reads source bs seen t
  boxesSeen : t.mBoxesSeen = seen
  missing : ¬t.mRequiredBoxes ⊆ seen

/-- The images have been built from the boxes of some types. -/
def Built (source : DataSource) (bs : List Box) (seen : Finset Nat) (t : ItemTable) : Prop :=
  ∃ c t₁, Reads source bs seen c ∧ c.mRequiredBoxes ⊆ seen ∧ c.build source = some (t₁, .OK) ∧
    t.toImages = t₁.toImages ∧ t.mImageItemsValid = true

theorem display_valid (h : t.display = some (t', .OK)) : t'.mImageItemsValid = true := by
  rw [display] at h
  split at h
  · cases h
  · obtain ⟨id, -, h⟩ := Option.map_eq_some_iff.mp h
    cases h
    rfl

theorem build_valid (h : t.build source = some (t', .OK)) : t'.mImageItemsValid = true := by
  rw [build_eq, Option.bind_eq_some_iff] at h
  obtain ⟨⟨t₀, err₀⟩, -, h⟩ := h
  split at h
  · exact display_valid h
  · next hbad =>
    cases h
    exact absurd rfl hbad

theorem parse_eq (t : ItemTable) (source : DataSource) (b : Box) : t.parse source b =
    if (t.read source b).2 = .OK then
      (t.read source b).1.buildImageItemsIfPossible source b.type
    else some (t.read source b) := rfl

theorem Pending.parse (hbs : Collection bs) (h : Pending source bs seen t) {b : Box} (hb : b ∈ bs)
    {k : BoxKind} (hk : b.type = k.type) (hnew : k.type ∉ seen)
    (hparse : t.parse source b = some (t', .OK)) :
    Pending source bs (insert k.type seen) t' ∨ Built source bs (insert k.type seen) t' := by
  rw [parse_eq] at hparse
  split at hparse
  · next hok =>
    have hreads := h.reads.read hbs hb hk hnew hok
    obtain ⟨himages, hseen⟩ := read_images t source b
    have hinvalid : (t.read source b).1.mImageItemsValid = false := by
      rw [hreads.images]
    have hreads' : Reads source bs (insert k.type seen)
        { (t.read source b).1 with mBoxesSeen := insert k.type seen } :=
      ⟨hreads.here, hreads.unseen, hreads.required, hreads.images⟩
    rw [ItemTable.buildImageItemsIfPossible, hinvalid, if_neg Bool.false_ne_true, hseen, h.boxesSeen, hk]
      at hparse
    dsimp only at hparse
    split at hparse
    · next hreq => exact .inr ⟨_, t', hreads', hreq, hparse, rfl, build_valid hparse⟩
    · next hmissing =>
      cases hparse
      exact .inl ⟨hreads', rfl, hmissing⟩
  · next hbad =>
    rw [Option.some.inj hparse] at hbad
    exact absurd rfl hbad

theorem Built.parse (h : Built source bs seen t) {b : Box} {k : BoxKind} (hk : b.type = k.type)
    (hnew : k.type ∉ seen) (hparse : t.parse source b = some (t', .OK)) :
    Built source bs seen t' := by
  obtain ⟨c, t₁, hreads, hreq, hbuild, himages, hvalid⟩ := h
  have hpitm : k ≠ .pitm := by
    rintro rfl
    exact hnew (hreads.base hreq (by decide) (by decide))
  have hsame : (t.read source b).1.Same t .pitm := read_other hk hpitm.symm
  have hprimary : (t.read source b).1.mPrimaryItemId = t.mPrimaryItemId := hsame
  have hsame : (t.read source b).1.toImages = t.toImages := by
    rw [(read_images t source b).1, hprimary]
  have hvalid' : (t.read source b).1.mImageItemsValid = true := by rw [hsame, hvalid]
  have hend : t' = (t.read source b).1 := by
    rw [parse_eq] at hparse
    split at hparse
    · rw [ItemTable.buildImageItemsIfPossible, if_pos hvalid'] at hparse
      cases hparse
      rfl
    · rw [Option.some.inj hparse]
  rw [hend]
  exact ⟨c, t₁, hreads, hreq, hbuild, hsame.trans himages, hvalid'⟩

def types (bs : List Box) : Finset Nat := (bs.map Box.type).toFinset

theorem mem_types {x : Nat} : x ∈ types bs ↔ ∃ b ∈ bs, b.type = x := by
  rw [types, List.mem_toFinset, List.mem_map]

theorem types_append (b : Box) : types (bs ++ [b]) = insert b.type (types bs) := by
  ext x
  rw [Finset.mem_insert, mem_types, mem_types]
  constructor
  · rintro ⟨b', hb', rfl⟩
    obtain hb' | hb' := List.mem_append.mp hb'
    · exact .inr ⟨b', hb', rfl⟩
    · exact .inl (by rw [List.mem_singleton.mp hb'])
  · rintro (rfl | ⟨b', hb', rfl⟩)
    · exact ⟨b, List.mem_append_right _ List.mem_cons_self, rfl⟩
    · exact ⟨b', List.mem_append_left _ hb', rfl⟩

theorem parseAll_cons {b : Box} (h : parseAll source t (b :: bs) = some t') :
    ∃ t₁, t.parse source b = some (t₁, .OK) ∧ parseAll source t₁ bs = some t' := by
  rw [parseAll, Option.bind_eq_some_iff] at h
  obtain ⟨⟨t₁, err⟩, hparse, h⟩ := h
  split at h
  · next hok =>
    dsimp only at hok
    exact ⟨t₁, hok ▸ hparse, h⟩
  · cases h

theorem types_subset (done rest : List Box) : types done ⊆ types (done ++ rest) := by
  intro x hx
  obtain ⟨b, hb, rfl⟩ := mem_types.mp hx
  exact mem_types.mpr ⟨b, List.mem_append_left _ hb, rfl⟩

theorem Collection.new {done rest : List Box} (hbs : Collection (done ++ rest)) {b : Box}
    (hb : b ∈ rest) : b.type ∉ types done := by
  intro hmem
  obtain ⟨b', hb', htype⟩ := mem_types.mp hmem
  have hdistinct := hbs.distinct
  rw [List.map_append, List.nodup_append] at hdistinct
  exact hdistinct.2.2 b'.type (List.mem_map_of_mem hb') b.type (List.mem_map_of_mem hb) htype

/-- From the moment that the images are built, they stay, and a reference box comes late. -/
theorem Built.parseAll {done rest : List Box} (hbs : Collection (done ++ rest))
    (hseen : seen ⊆ types done) (h : Built source (done ++ rest) seen t)
    (hrun : parseAll source t rest = some t') :
    Built source (done ++ rest) seen t' ∧
      (IrefLate source t rest ↔ ∃ b ∈ rest, b.type = BoxKind.iref.type) := by
  induction rest generalizing done t with
  | nil =>
    cases hrun
    exact ⟨h, by simp [IrefLate]⟩
  | cons b rest ih =>
    obtain ⟨t₁, hparse, hrun⟩ := parseAll_cons hrun
    obtain ⟨k, hk⟩ := hbs.known b (List.mem_append_right _ List.mem_cons_self)
    have happend : done ++ b :: rest = (done ++ [b]) ++ rest := by simp
    have hnew : k.type ∉ seen := fun hmem =>
      hbs.new List.mem_cons_self (hk ▸ hseen hmem)
    have hbuilt := h.parse hk hnew hparse
    have hvalid : t.mImageItemsValid = true := h.choose_spec.choose_spec.2.2.2.2
    rw [happend] at hbs hbuilt
    obtain ⟨hend, hlate⟩ := ih hbs
      (hseen.trans (types_append b ▸ Finset.subset_insert _ _)) hbuilt hrun
    rw [happend]
    refine ⟨hend, ?_⟩
    rw [IrefLate, List.exists_mem_cons_iff]
    constructor
    · rintro (⟨htype, -⟩ | ⟨r, hparse', -, hlate'⟩)
      · exact .inl htype
      · rw [hparse] at hparse'
        cases hparse'
        exact .inr (hlate.mp hlate')
    · rintro (htype | hany)
      · exact .inl ⟨htype, hvalid⟩
      · exact .inr ⟨_, hparse, rfl, hlate.mpr hany⟩

/-- In the end, either something is missing or the images were built at some point, and then an `iref`
box is late exactly if it was not seen by then. -/
theorem Pending.parseAll (done : List Box) {rest : List Box} (hbs : Collection (done ++ rest))
    (h : Pending source (done ++ rest) (types done) t) (hrun : parseAll source t rest = some t') :
    Pending source (done ++ rest) (types (done ++ rest)) t' ∨
      ∃ seen, seen ⊆ types (done ++ rest) ∧ Built source (done ++ rest) seen t' ∧
        (IrefLate source t rest ↔ (∃ b ∈ done ++ rest, b.type = BoxKind.iref.type) ∧
          BoxKind.iref.type ∉ seen) := by
  induction rest generalizing done t with
  | nil =>
    cases hrun
    rw [List.append_nil] at h ⊢
    exact .inl h
  | cons b rest ih =>
    obtain ⟨t₁, hparse, hrun⟩ := parseAll_cons hrun
    have hb : b ∈ done ++ b :: rest := List.mem_append_right _ List.mem_cons_self
    obtain ⟨k, hk⟩ := hbs.known b hb
    have happend : done ++ b :: rest = (done ++ [b]) ++ rest := by simp
    have hnew : k.type ∉ types done := hk ▸ hbs.new List.mem_cons_self
    have hinvalid : t.mImageItemsValid = false := by rw [h.reads.images]
    have hlate : IrefLate source t (b :: rest) ↔ IrefLate source t₁ rest := by
      rw [IrefLate]
      constructor
      · rintro (⟨-, hvalid⟩ | ⟨r, hparse', -, hlate'⟩)
        · rw [hinvalid] at hvalid
          cases hvalid
        · rw [hparse] at hparse'
          cases hparse'
          exact hlate'
      · exact fun hlate' => .inr ⟨_, hparse, rfl, hlate'⟩
    have hnext := h.parse hbs hb hk hnew hparse
    rw [← hk, ← types_append b] at hnext
    rw [happend] at hbs hnext ⊢
    rw [hlate]
    obtain hpending | hbuilt := hnext
    · exact ih _ hbs hpending hrun
    · obtain ⟨hend, hlate'⟩ := hbuilt.parseAll hbs Finset.Subset.rfl hrun
      refine .inr ⟨_, types_subset _ _, hend, hlate'.trans ?_⟩
      constructor
      · rintro ⟨b', hb', htype⟩
        exact ⟨⟨b', List.mem_append_right _ hb', htype⟩, htype ▸ hbs.new hb'⟩
      · rintro ⟨⟨b', hb', htype⟩, hunseen⟩
        refine ⟨b', (List.mem_append.mp hb').resolve_left fun hdone => hunseen ?_, htype⟩
        exact mem_types.mpr ⟨b', hdone, htype⟩

theorem Pending.start (source : DataSource) (bs : List Box) : Pending source bs (types []) {} where
  reads := Reads.start source bs
  boxesSeen := rfl
  missing := by decide

/-- Only `iloc` and `iinf` make boxes required. -/
theorem alone_required {b : Box} {k : BoxKind} (hk : b.type = k.type) (hiloc : k ≠ .iloc)
    (hiinf : k ≠ .iinf) :
    (alone source b).mRequiredBoxes = ({} : Contents).mRequiredBoxes := by
  rw [alone, read_eq hk]
  cases k
  case iloc => contradiction
  case iinf => contradiction
  case pitm =>
    rw [readAs, readPitm]
    split <;> rfl
  all_goals rfl

/-- Where all is there for one order, nothing is missing for another. -/
theorem Built.complete (hbs : Collection bs) (hperm : bs.Perm bs') (h : Built source bs seen t)
    (hseen : seen ⊆ types bs) (h' : Reads source bs' (types bs') t') :
    t'.mRequiredBoxes ⊆ types bs' := by
  obtain ⟨c, -, hreads, hreq, -⟩ := h
  have htypes : types bs = types bs' := by
    ext x
    rw [mem_types, mem_types]
    exact exists_congr fun b => and_congr_left' hperm.mem_iff
  refine fun x hx => htypes ▸ hseen (hreq ((hreads.required x).mpr ?_))
  obtain hbase | ⟨b, hb, -, hx⟩ := (h'.required x).mp hx
  · exact .inl hbase
  · have hb' : b ∈ bs := hperm.mem_iff.mpr hb
    obtain ⟨k, hk⟩ := hbs.known b hb'
    by_cases hiloc : k = .iloc
    · subst hiloc
      exact .inr ⟨b, hb', hk ▸ hreads.base hreq (by decide) (by decide), hx⟩
    · by_cases hiinf : k = .iinf
      · subst hiinf
        exact .inr ⟨b, hb', hk ▸ hreads.base hreq (by decide) (by decide), hx⟩
      · exact .inl (alone_required hk hiloc hiinf ▸ hx)

theorem images_eq_of_perm {t₁ t₂ : ItemTable} (hbs : Collection bs) (hperm : bs.Perm bs')
    (h₁ : parseAll source {} bs = some t₁) (h₂ : parseAll source {} bs' = some t₂)
    (hiref : (IrefLate source {} bs ↔ IrefLate source {} bs') ∨
      IrefIdle source bs t₁.mItemIdToItemMap) :
    t₁.toImages = t₂.toImages ∧
      (∀ i, t₁.findImageItem i = t₂.findImageItem i) ∧
      (∀ i, t₁.findThumbnailItem i = t₂.findThumbnailItem i) ∧
      (∀ i, t₁.getImageOffsetAndSize i = t₂.getImageOffsetAndSize i) ∧
      t₁.getExifOffsetAndSize source = t₂.getExifOffsetAndSize source := by
  suffices himages : t₁.toImages = t₂.toImages by
    refine ⟨himages, ?_, ?_, ?_, ?_⟩ <;> simp only [himages, implies_true]
  have hbs' := hbs.perm hperm
  have hiff : (∃ b ∈ bs, b.type = BoxKind.iref.type) ↔ ∃ b ∈ bs', b.type = BoxKind.iref.type :=
    exists_congr fun b => and_congr_left' hperm.mem_iff
  have hend₁ := (Pending.start source bs).parseAll [] hbs h₁
  have hend₂ := (Pending.start source bs').parseAll [] hbs' h₂
  rw [List.nil_append] at hend₁ hend₂
  obtain hpending₁ | ⟨seen₁, hseen₁, hbuilt₁, hlate₁⟩ := hend₁
  · obtain hpending₂ | ⟨seen₂, hseen₂, hbuilt₂, -⟩ := hend₂
    · have hpitm : ∀ {cs : List Box}, Collection cs → BoxKind.pitm.type ∈ types cs :=
        fun hcs => mem_types.mpr (hcs.needed .pitm (by decide) (by decide))
      have hprimary : t₁.mPrimaryItemId = t₂.mPrimaryItemId :=
        hpending₁.reads.same hbs hperm hpending₂.reads (k := .pitm) (hpitm hbs) (hpitm hbs')
      rw [hpending₁.reads.images, hpending₂.reads.images, hprimary]
    · exact absurd (hbuilt₂.complete hbs' hperm.symm hseen₂ hpending₁.reads) hpending₁.missing
  · obtain hpending₂ | ⟨seen₂, hseen₂, hbuilt₂, hlate₂⟩ := hend₂
    · exact absurd (hbuilt₁.complete hbs hperm hseen₁ hpending₂.reads) hpending₂.missing
    · obtain ⟨c₁, u₁, hreads₁, hreq₁, hbuild₁, himages₁, -⟩ := hbuilt₁
      obtain ⟨c₂, u₂, hreads₂, hreq₂, hbuild₂, himages₂, -⟩ := hbuilt₂
      rw [himages₁, himages₂]
      refine build_images_eq hbs hperm hreads₁ hreads₂ hreq₁ hreq₂ hbuild₁ hbuild₂ ?_
      obtain hiref | hidle := hiref
      · refine .inl ?_
        by_cases hany : ∃ b ∈ bs, b.type = BoxKind.iref.type
        · rw [hlate₁, hlate₂, ← hiff, and_iff_right hany, and_iff_right hany] at hiref
          exact not_iff_not.mp hiref
        · have hnone₁ : BoxKind.iref.type ∉ seen₁ := fun h => hany (mem_types.mp (hseen₁ h))
          have hnone₂ : BoxKind.iref.type ∉ seen₂ :=
            fun h => hany (hiff.mpr (mem_types.mp (hseen₂ h)))
          exact iff_of_false hnone₁ hnone₂
      · rw [himages₁] at hidle
        exact .inr hidle

/-! ### A thumbnail that is found too late -/

/-- The boxes of a file with two images, the second of which is the thumbnail of the first. -/
def twoImages : DataSource := fileOf
  [0, 0, 0, 0, 0, 1,
    0, 0, 0, 0, 0, 0, 0, 2, 0, 1, 0, 0, 0, 1, 0, 2, 0, 0, 0, 1,
    0, 0, 0, 0, 0, 2,
    0, 0, 0, 21, 105, 110, 102, 101, 2, 0, 0, 0, 0, 1, 0, 0, 104, 118, 99, 49, 0,
    0, 0, 0, 21, 105, 110, 102, 101, 2, 0, 0, 0, 0, 2, 0, 0, 104, 118, 99, 49, 0,
    0, 0, 0, 0, 0, 0, 0, 14, 116, 104, 109, 98, 0, 2, 0, 1, 0, 1]

/-- The references come after the images were built. -/
def irefLast : List Box :=
  [boxOf .iloc 6 20, boxOf .iinf 26 48, boxOf .iprp 74 0, boxOf .pitm 0 6, boxOf .iref 74 18]

def irefFirst : List Box :=
  [boxOf .iref 74 18, boxOf .pitm 0 6, boxOf .iprp 74 0, boxOf .iinf 26 48, boxOf .iloc 6 20]

def irefSecond : List Box :=
  [boxOf .pitm 0 6, boxOf .iref 74 18, boxOf .iloc 6 20, boxOf .iinf 26 48, boxOf .iprp 74 0]

theorem irefFirst_collection : Collection irefFirst where
  known := by
    simp only [irefFirst, List.forall_mem_cons]
    exact ⟨⟨.iref, rfl⟩, ⟨.pitm, rfl⟩, ⟨.iprp, rfl⟩, ⟨.iinf, rfl⟩, ⟨.iloc, rfl⟩, by simp⟩
  distinct := by decide
  needed := by
    intro k hidat hiref
    cases k
    case idat => contradiction
    case iref => contradiction
    all_goals decide

theorem images_eq_of_perm_irefFirst :
    ∃ t₁ t₂, parseAll twoImages {} irefFirst = some t₁ ∧ parseAll twoImages {} irefSecond = some t₂ ∧
      t₁.toImages = t₂.toImages := by
  obtain ⟨t₁, h₁⟩ : ∃ t₁, parseAll twoImages {} irefFirst = some t₁ :=
    Option.isSome_iff_exists.mp (by decide +kernel)
  obtain ⟨t₂, h₂⟩ : ∃ t₂, parseAll twoImages {} irefSecond = some t₂ :=
    Option.isSome_iff_exists.mp (by decide +kernel)
  exact ⟨t₁, t₂, h₁, h₂,
    (images_eq_of_perm irefFirst_collection (by decide) h₁ h₂ (.inl (by decide +kernel))).1⟩

theorem displayables_of_irefLate :
    Collection irefFirst ∧ irefLast.Perm irefFirst ∧
      (parseAll twoImages {} irefLast).map (fun t => t.mDisplayables) = some [0, 1] ∧
      (parseAll twoImages {} irefFirst).map (fun t => t.mDisplayables) = some [0] :=
  ⟨irefFirst_collection, by decide +kernel⟩

end ItemTable

end MediaFramework.Mp4.Heif
