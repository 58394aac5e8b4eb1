import MediaFramework.DataSource.CallbackDataSource
import MediaFramework.Lib.Machine
import MediaFramework.Lib.Blocks

/-!
# Reads with and without the small cache

When `TinyCacheSource` gives what the `CallbackDataSource` below it does.
-/

namespace MediaFramework.DataSource

variable {content : List Byte} {atEnd : Int} {offset size : Nat}

/-- A source of the content. At the end it returns 0 or an error. -/
def served (content : List Byte) (atEnd : Int) (offset n : Nat) : Int × List Byte :=
  if offset < content.length then
    (((min n (content.length - offset) : Nat) : Int), (content.drop offset).take n)
  else (atEnd, [])

/-- The two ways to tell the end. -/
def EndOfContent (atEnd : Int) : Prop := atEnd = 0 ∨ atEnd = ERROR_END_OF_STREAM

namespace CallbackDataSource

variable {bufferSize totalNumRead numLeft : Nat} {data : List Byte}

theorem readLoop_served (hbuffer : 0 < bufferSize) (hend : EndOfContent atEnd)
    (hpos : 0 < totalNumRead) (hdata : data = (content.drop offset).take totalNumRead)
    (hle : offset + totalNumRead ≤ content.length) :
    readLoop ⟨served content atEnd, bufferSize⟩ offset totalNumRead numLeft data =
      (((min (totalNumRead + numLeft) (content.length - offset) : Nat) : Int),
        (content.drop offset).take (totalNumRead + numLeft)) := by
  induction numLeft using Nat.strongRecOn generalizing totalNumRead data with
  | ind numLeft ih =>
    rw [readLoop]
    split
    · next hleft =>
      dsimp only
      by_cases hbefore : offset + totalNumRead < content.length
      · rw [served, if_pos hbefore]
        generalize hread : min (min numLeft bufferSize) (content.length - (offset + totalNumRead)) = n
        have hn : 0 < n ∧ n ≤ numLeft ∧ n ≤ min numLeft bufferSize := by omega
        dsimp only
        rw [if_neg (by omega), if_neg (by omega), if_neg (by omega)]
        rw [Int.toNat_natCast]
        have htake : data ++ (((content.drop (offset + totalNumRead)).take (min numLeft bufferSize)).take n) =
            (content.drop offset).take (totalNumRead + n) := by
          rw [hdata, List.take_take, Nat.min_eq_left hn.2.2, ← List.drop_drop, List.take_add]
        rw [ih (numLeft - n) (by omega) (by omega) htake (by omega)]
        have hsum : totalNumRead + n + (numLeft - n) = totalNumRead + numLeft := by omega
        rw [hsum]
      · have htotal : min (totalNumRead + numLeft) (content.length - offset) = totalNumRead := by
          omega
        have hall : data = (content.drop offset).take (totalNumRead + numLeft) := by
          rw [hdata, List.take_of_length_le (by rw [List.length_drop]; omega),
            List.take_of_length_le (by rw [List.length_drop]; omega)]
        rw [served, if_neg hbefore, htotal, ← hall]
        dsimp only
        rcases hend with rfl | rfl
        · rfl
        · rw [if_pos (by decide), if_pos ⟨rfl, hpos⟩]
    · next hdone =>
      obtain rfl : numLeft = 0 := by omega
      rw [Nat.add_zero, Nat.min_eq_left (by omega), hdata]

/-- Over a source of the content, `readAt` is one as well, whatever the size of the memory. -/
theorem readAt_served (hbuffer : 0 < bufferSize) (hend : EndOfContent atEnd) (hsize : 0 < size) :
    readAt ⟨served content atEnd, bufferSize⟩ offset size = served content atEnd offset size := by
  rw [readAt, readLoop, if_pos hsize]
  dsimp only
  rw [Nat.add_zero]
  by_cases hbefore : offset < content.length
  · rw [served, if_pos hbefore, served, if_pos hbefore]
    generalize hread : min (min size bufferSize) (content.length - offset) = n
    have hn : 0 < n ∧ n ≤ size ∧ n ≤ min size bufferSize := by omega
    dsimp only
    rw [if_neg (by omega), if_neg (by omega), if_neg (by omega), Int.toNat_natCast, Nat.zero_add,
      List.nil_append, List.take_take, Nat.min_eq_left hn.2.2,
      readLoop_served hbuffer hend hn.1 rfl (by omega)]
    have hsum : n + (size - n) = size := by omega
    rw [hsum]
  · rw [served, if_neg hbefore, served, if_neg hbefore]
    rcases hend with rfl | rfl <;> rfl

end CallbackDataSource

namespace TinyCacheSource

variable {mSource : Nat → Nat → Int × List Byte} {t : TinyCacheSource}

/-- A source below that is one of the content, for reads of at least a byte. -/
def Serves (content : List Byte) (atEnd : Int) (mSource : Nat → Nat → Int × List Byte) : Prop :=
  ∀ offset size, 0 < size → mSource offset size = served content atEnd offset size

/-- The cache has bytes of the content. -/
structure Caches (content : List Byte) (t : TinyCacheSource) : Prop where
  window : Window content t.mCachedOffset (t.mCache.take t.mCachedSize)
  size : t.mCachedSize ≤ t.mCache.length

/-- A read that goes on from a cache at the end of the content, where that is told by an error. -/
def Cuts (content : List Byte) (atEnd : Int) (t : TinyCacheSource) (offset size : Nat) : Prop :=
  atEnd = ERROR_END_OF_STREAM ∧ t.Holds offset ∧
    t.mCachedOffset + t.mCachedSize = content.length ∧ content.length < offset + size

instance (content : List Byte) (atEnd : Int) (t : TinyCacheSource) (offset size : Nat) :
    Decidable (Cuts content atEnd t offset size) := inferInstanceAs (Decidable (_ ∧ _))

theorem caches_start (content : List Byte) : Caches content {} := ⟨Window.nil content 0, Nat.le_refl _⟩

theorem fill_served (h : Caches content t) (hsource : Serves content atEnd mSource)
    (hend : EndOfContent atEnd) (offset : Nat) (hsize : 0 < size) :
    (t.fill mSource offset size).2 = served content atEnd offset size ∧
      Caches content (t.fill mSource offset size).1 := by
  rw [fill]
  split
  · exact ⟨hsource offset size hsize, h⟩
  · next hsmall =>
    rw [hsource offset kCacheSize (by decide), served]
    by_cases hbefore : offset < content.length
    · have hlength : ((content.drop offset).take kCacheSize).length =
          min kCacheSize (content.length - offset) := by
        rw [List.length_take, List.length_drop]
      have hcache : kCacheSize = 2048 := rfl
      rw [if_pos hbefore, served, if_pos hbefore]
      dsimp only
      rw [if_neg (by omega), if_neg (by omega), Int.toNat_natCast]
      refine ⟨?_, ?_, ?_⟩
      · have hmin : min size (min kCacheSize (content.length - offset)) =
            min size (content.length - offset) := by omega
        rw [hmin, List.take_take]
        have htake : (content.drop offset).take (min (min size (content.length - offset)) kCacheSize) =
            (content.drop offset).take size := by
          rw [List.take_eq_take_iff, List.length_drop]
          omega
        rw [htake]
      · show Window content offset _
        exact (List.take_prefix _ _).trans (List.take_prefix _ _)
      · exact Nat.le_of_eq hlength.symm
    · rw [if_neg hbefore, served, if_neg hbefore]
      dsimp only
      rw [if_pos (by rcases hend with rfl | rfl <;> decide)]
      exact ⟨rfl, Window.nil content 0, Nat.zero_le _⟩

/-- A read that the cache meets in part or whole: what it has of it. -/
theorem Caches.cached (h : Caches content t) (hholds : t.Holds offset) {n : Nat}
    (hle : offset + n ≤ t.mCachedOffset + t.mCachedSize) :
    (t.mCache.drop (offset - t.mCachedOffset)).take n = (content.drop offset).take n ∧
      offset + n ≤ content.length := by
  obtain ⟨hoffset, hlt⟩ := hholds
  have hsize := h.size
  have hwithin : offset - t.mCachedOffset + n ≤ (t.mCache.take t.mCachedSize).length := by
    rw [List.length_take]
    omega
  have hslice := h.window.slice hwithin
  have hlength := h.window.length_le
  rw [List.length_take] at hlength
  rw [List.drop_take, List.take_take, Nat.min_eq_left (by omega)] at hslice
  have hsum : t.mCachedOffset + (offset - t.mCachedOffset) = offset := by omega
  rw [hslice, hsum]
  exact ⟨rfl, by omega⟩

theorem readAt_miss (h : ¬t.Holds offset) :
    t.readAt mSource offset size = t.fill mSource offset size := by
  rw [readAt, if_neg h]

/-- One read: the results agree unless the end cuts it, and the cache goes on as one of the
content. -/
theorem readAt_spec (h : Caches content t) (hsource : Serves content atEnd mSource)
    (hend : EndOfContent atEnd) (offset : Nat) {size : Nat} (hsize : 0 < size) :
    ((t.readAt mSource offset size).2 = served content atEnd offset size ↔
        ¬Cuts content atEnd t offset size) ∧
      Caches content (t.readAt mSource offset size).1 := by
  rw [readAt]
  split
  · next hholds =>
    split
    · next hwhole =>
      obtain ⟨hcached, hle⟩ := h.cached hholds hwhole
      refine ⟨iff_of_true ?_ ?_, h⟩
      · dsimp only
        rw [served, if_pos (by omega), hcached, Nat.min_eq_left (by omega)]
      · rintro ⟨-, -, hlast, hbeyond⟩
        omega
    · next hpart =>
      -- the rest of the read starts at the end of the cache, which does not hold it
      generalize hremaining : t.mCachedOffset + t.mCachedSize - offset = remaining
      have hholds' := hholds
      obtain ⟨hoffset, hlt⟩ := hholds'
      obtain ⟨hcached, hle⟩ := h.cached (n := remaining) hholds (by omega)
      have hmiss : ¬t.Holds (offset + remaining) := by
        rw [Holds]
        omega
      have hmore : remaining < size := by omega
      dsimp only
      rw [readAt_miss hmiss, hcached]
      obtain ⟨hrest, hcaches⟩ :=
        fill_served h hsource hend (offset + remaining) (Nat.sub_pos_of_lt hmore)
      generalize t.fill mSource (offset + remaining) (size - remaining) = filled at hrest hcaches
      obtain ⟨t', readMore, data⟩ := filled
      dsimp only at hrest hcaches ⊢
      refine ⟨?_, by split <;> exact hcaches⟩
      rw [served, if_pos (by omega : offset < content.length)]
      by_cases hbefore : offset + remaining < content.length
      · rw [served, if_pos hbefore] at hrest
        obtain ⟨rfl, rfl⟩ := Prod.mk.inj hrest
        rw [if_neg (by omega)]
        refine iff_of_true ?_ ?_
        · have htake : (content.drop offset).take remaining ++
              (content.drop (offset + remaining)).take (size - remaining) =
                (content.drop offset).take size := by
            rw [← List.drop_drop, ← List.take_add]
            congr 1
            omega
          have hsum : (remaining : Int) +
              ((min (size - remaining) (content.length - (offset + remaining)) : Nat) : Int) =
                ((min size (content.length - offset) : Nat) : Int) := by omega
          rw [htake, hsum]
        · rintro ⟨-, -, hlast, -⟩
          omega
      · have hlast : offset + remaining = content.length := by omega
        rw [served, if_neg hbefore] at hrest
        obtain ⟨rfl, rfl⟩ := Prod.mk.inj hrest
        rcases hend with rfl | rfl
        · rw [if_neg (by decide)]
          refine iff_of_true ?_ ?_
          · have htake : (content.drop offset).take remaining ++ [] =
                (content.drop offset).take size := by
              rw [List.append_nil, List.take_eq_take_iff, List.length_drop]
              omega
            have hsum : (remaining : Int) + 0 = ((min size (content.length - offset) : Nat) : Int) := by
              omega
            rw [htake, hsum]
          · rintro ⟨herror, -⟩
            exact absurd herror (by decide)
        · rw [if_pos (by decide)]
          refine iff_of_false ?_ (not_not.mpr ⟨rfl, hholds, by omega, by omega⟩)
          intro heq
          have hresult := congrArg Prod.fst heq
          have herror : ERROR_END_OF_STREAM = -1011 := rfl
          dsimp only at hresult
          omega
  · next hmiss =>
    obtain ⟨hfill, hcaches⟩ := fill_served h hsource hend offset hsize
    exact ⟨iff_of_true hfill fun hcuts => hmiss hcuts.2.1, hcaches⟩

/-! ### Runs -/

/-- The source below: a `CallbackDataSource` over a source of the content. -/
def source (content : List Byte) (atEnd : Int) (bufferSize : Nat) : Nat → Nat → Int × List Byte :=
  CallbackDataSource.readAt ⟨served content atEnd, bufferSize⟩

/-- What holds before each of the reads that are made, of an offset and a size. -/
def AlongReads (mSource : Nat → Nat → Int × List Byte)
    (P : TinyCacheSource → Nat × Nat → Prop) : List (Nat × Nat) → Prop :=
  Along (fun t read => (t.readAt mSource read.1 read.2).1) P {}

/-- Each read gives the result and the bytes of the source below exactly when none goes on from a
cache that ends with the content, at the end of which the source returns an error. -/
theorem agrees_iff (content : List Byte) (hend : EndOfContent atEnd) {bufferSize : Nat}
    (hbuffer : 0 < bufferSize) {reads : List (Nat × Nat)} (hsize : ∀ read ∈ reads, 0 < read.2) :
    AlongReads (source content atEnd bufferSize)
        (fun t read => (t.readAt (source content atEnd bufferSize) read.1 read.2).2 =
          source content atEnd bufferSize read.1 read.2) reads ↔
      AlongReads (source content atEnd bufferSize)
        (fun t read => ¬Cuts content atEnd t read.1 read.2) reads := by
  have hsource : Serves content atEnd (source content atEnd bufferSize) :=
    fun _ _ hpos => CallbackDataSource.readAt_served hbuffer hend hpos
  refine Along.iff (I := Caches content) ?_ hsize (caches_start content)
  intro t read hcaches hpos
  obtain ⟨hagrees, hcaches⟩ := readAt_spec hcaches hsource hend read.1 hpos
  rw [hsource read.1 read.2 hpos]
  exact ⟨hagrees, hcaches⟩

/-- A first read of a content of three bytes brings all of it into the cache. -/
theorem readAt_three :
    (({} : TinyCacheSource).readAt (source [1, 2, 3] ERROR_END_OF_STREAM 2) 0 1).1 =
      ⟨[1, 2, 3], 0, 3⟩ := by
  have hread : source [1, 2, 3] ERROR_END_OF_STREAM 2 0 kCacheSize = (3, [1, 2, 3]) :=
    (CallbackDataSource.readAt_served (by decide) (.inr rfl) (by decide)).trans (by decide)
  rw [readAt_miss (by decide), fill, if_neg (by decide), hread]
  rfl

theorem agrees_three :
    AlongReads (source [1, 2, 3] ERROR_END_OF_STREAM 2)
      (fun t read => (t.readAt (source [1, 2, 3] ERROR_END_OF_STREAM 2) read.1 read.2).2 =
        source [1, 2, 3] ERROR_END_OF_STREAM 2 read.1 read.2) [(0, 1), (1, 2)] := by
  rw [agrees_iff [1, 2, 3] (.inr rfl) (by decide) (by decide)]
  refine ⟨by decide, ?_, trivial⟩
  dsimp only
  rw [readAt_three]
  decide

/-- The read of what is left and more, after the cache has been filled up to the end: an error in
place of the two bytes. -/
theorem cut_at_end :
    ¬AlongReads (source [1, 2, 3] ERROR_END_OF_STREAM 2)
      (fun t read => (t.readAt (source [1, 2, 3] ERROR_END_OF_STREAM 2) read.1 read.2).2 =
        source [1, 2, 3] ERROR_END_OF_STREAM 2 read.1 read.2) [(0, 1), (1, 5)] := by
  rintro ⟨-, hsecond, -⟩
  dsimp only at hsecond
  rw [readAt_three] at hsecond
  have hcaches : Caches [1, 2, 3] ⟨[1, 2, 3], 0, 3⟩ := ⟨List.prefix_rfl, by decide⟩
  have hsource : Serves [1, 2, 3] ERROR_END_OF_STREAM (source [1, 2, 3] ERROR_END_OF_STREAM 2) :=
    fun _ _ hpos => CallbackDataSource.readAt_served (by decide) (.inr rfl) hpos
  obtain ⟨hiff, -⟩ := readAt_spec hcaches hsource (.inr rfl) 1 (Nat.succ_pos 4)
  rw [hsource 1 5 (by decide)] at hsecond
  exact hiff.mp hsecond ⟨rfl, by decide, rfl, by decide⟩

end TinyCacheSource

end MediaFramework.DataSource
