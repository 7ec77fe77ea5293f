import RedisCore.ZipmapLayout
import RedisCore.Outcome

namespace RedisCore.Zipmap
open List (append_assoc cons_append length_append length_cons length_drop length_nil
  length_take_of_le map_append map_cons mem_append mem_append_right mem_cons_self mem_map nil_append
  take_append_drop)

variable {m a b c r zm key val : Bytes} {es xs ys : List Entry} {e : Entry}

theorem zipmapResize_at (len : ℕ) (hm : m = a ++ b) (hle : a.length+1 ≤ len) (hlt : len < 2^32) :
    ∃ y, zipmapResize m len = .ok (a ++ (y ++ [zipmapEnd])) ∧ a.length+y.length+1 = len := by
  have hlen : (reallocBytes m len).length = len := by
    rw [reallocBytes, length_append, List.length_take, List.length_replicate]
    omega
  have hfront : (reallocBytes m len).take a.length = a := by
    rw [reallocBytes, hm, List.take_append_of_le_length, List.take_take, Nat.min_eq_left (by omega),
      List.take_left]
    rw [List.length_take, length_append]
    omega
  let v := (reallocBytes m len).drop a.length
  have hv : v.length = len-a.length := by rw [length_drop, hlen]
  have hne : v ≠ [] := by
    intro hnil
    rw [hnil, length_nil] at hv
    omega
  have hsplit : reallocBytes m len = (a ++ v.dropLast) ++ ([v.getLast hne] ++ []) := by
    rw [List.append_nil, append_assoc, List.dropLast_append_getLast]
    exact (congrArg (· ++ v) hfront ▸ (take_append_drop a.length _).symm)
  refine ⟨v.dropLast, ?_, ?_⟩
  · rw [zipmapResize, if_neg (not_le.2 hlt), storeBytes_at hsplit _
      (show [v.getLast hne].length = [zipmapEnd].length from rfl)]
    · simp
    · rw [length_append, List.length_dropLast, hv]
      omega
  · rw [List.length_dropLast, hv]
    omega

theorem zipmapResize_wraps {len : ℕ} (h : 2^32 ≤ len) : zipmapResize m len = .error .sizeWrap := by
  rw [zipmapResize, if_pos h]

variable {p n vempty zmlen reqlen : ℕ} {cnt : UInt8}

theorem storeBytes_front (hm : m = a ++ (r ++ c)) (hp : p = a.length) (hle : b.length ≤ r.length) :
    storeBytes m p b = .ok ((a ++ b) ++ (r.drop b.length ++ c)) := by
  have hsplit : m = a ++ (r.take b.length ++ (r.drop b.length ++ c)) := by
    rw [hm, ← append_assoc (r.take b.length), take_append_drop]
  rw [storeBytes_at hsplit hp (length_take_of_le hle), append_assoc a b]

theorem incrementCount_at (hcnt : CountOk cnt n) (b : Bytes) :
    ∃ cnt', incrementCount (cnt :: b) = .ok (cnt' :: b) ∧ CountOk cnt' (n+1) := by
  rw [incrementCount, loadByte_cons_zero, ok_bind]
  rcases hcnt with ⟨hexact, hsmall⟩ | rfl
  · have hbyte : (UInt8.ofNat (cnt.toNat+1)).toNat = n+1 := by
      rw [UInt8.toNat_ofNat', hexact]
      exact Nat.mod_eq_of_lt (lt_of_le_of_lt hsmall (by decide))
    rw [if_pos (by rw [hexact]; exact hsmall)]
    refine ⟨_, storeBytes_at (a := []) (x := [cnt]) rfl rfl rfl, ?_⟩
    by_cases hlast : n+1 < zipmapBiglen
    · exact Or.inl ⟨hbyte, hlast⟩
    · have hfull : n+1 = zipmapBiglen := le_antisymm hsmall (not_lt.1 hlast)
      refine Or.inr (UInt8.toNat_inj.1 ?_)
      rw [hbyte, hfull]
      rfl
  · rw [if_neg (by decide)]
    exact ⟨254, rfl, Or.inr rfl⟩

theorem decrementCount_at (hcnt : CountOk cnt (n+1)) (b : Bytes) :
    ∃ cnt', decrementCount (cnt :: b) = .ok (cnt' :: b) ∧ CountOk cnt' n := by
  rw [decrementCount, loadByte_cons_zero, ok_bind]
  rcases hcnt with ⟨hexact, hsmall⟩ | rfl
  · have hn : n < zipmapBiglen := lt_trans (Nat.lt_succ_self n) hsmall
    have hbyte : (UInt8.ofNat (cnt.toNat-1)).toNat = n := by
      rw [UInt8.toNat_ofNat', hexact, Nat.add_sub_cancel]
      exact Nat.mod_eq_of_lt (lt_trans hn (by decide))
    rw [if_pos (by rw [hexact]; exact hsmall)]
    exact ⟨_, storeBytes_at (a := []) (x := [cnt]) rfl rfl rfl, Or.inl ⟨hbyte, hn⟩⟩
  · rw [if_neg (by decide)]
    exact ⟨254, rfl, Or.inr rfl⟩

def written (key val room : Bytes) : Entry :=
  { key := key
    val := val
    free := room.drop (zipmapRequiredLength key.length val.length) }

theorem writeEntry_at (hm : m = a ++ (r ++ c)) (hp : p = a.length)
    (hr : r.length = zipmapRequiredLength key.length val.length+vempty) :
    writeEntry m p key val vempty = .ok (a ++ (encodeEntry (written key val r) ++ c)) := by
  have hreq : zipmapRequiredLength key.length val.length = zipmapLenBytes key.length+key.length+
      zipmapLenBytes val.length+1+val.length := by
    simp only [zipmapRequiredLength, zipmapLenBytes]
    split_ifs <;> omega
  have hfree : (r.drop (zipmapRequiredLength key.length val.length)).length = vempty := by
    rw [length_drop, hr, Nat.add_sub_cancel_left]
  have hdrop : zipmapLenBytes key.length+key.length+zipmapLenBytes val.length+1+val.length =
      zipmapRequiredLength key.length val.length := hreq.symm
  rw [writeEntry, zipmapEncodeLength, storeBytes_front hm hp, ok_bind]
  · dsimp only
    rw [storeBytes_front rfl, ok_bind, zipmapEncodeLength, storeBytes_front rfl,
      ok_bind, storeBytes_front rfl, ok_bind, storeBytes_front rfl]
    · simp only [List.drop_drop, encodedLength_length, length_cons, length_nil,
        Nat.zero_add, encodeEntry, written, hdrop, hfree]
      simp only [append_assoc, cons_append, nil_append]
    all_goals
      simp only [length_append, length_drop, encodedLength_length, length_cons,
        length_nil]
      omega
  · rw [encodedLength_length]
    omega

theorem trimRoom_none {freelen : ℕ} (h : freelen-reqlen < zipmapValueMaxFree) :
    trimRoom m p zmlen freelen reqlen = .ok (m, freelen-reqlen) := by
  rw [trimRoom, if_neg (not_le.2 h)]

theorem makeRoom_new (hcnt : CountOk cnt n) (hm : m = cnt :: b ++ [zipmapEnd])
    (hfit : m.length+reqlen < 2^32) :
    ∃ cnt' y, makeRoom m none m.length reqlen =
        .ok ((cnt' :: b) ++ (y ++ [zipmapEnd]), (cnt' :: b).length, m.length+reqlen, reqlen) ∧
      y.length = reqlen ∧ CountOk cnt' (n+1) := by
  have hlen : m.length = (cnt :: b).length+1 := by rw [hm, length_append]; rfl
  obtain ⟨y, hresize, hy⟩ := zipmapResize_at (m.length+reqlen) hm (by omega) hfit
  obtain ⟨cnt', hinc, hcnt'⟩ := incrementCount_at hcnt (b ++ (y ++ [zipmapEnd]))
  refine ⟨cnt', y, ?_, by omega, hcnt'⟩
  have hpos : m.length-1 = (cnt' :: b).length := by rw [hlen]; rfl
  rw [makeRoom, hresize, ok_bind, cons_append, hinc, ok_bind, hpos]
  rfl

theorem makeRoom_grow (he : EntryOk e) (hm : m = a ++ (encodeEntry e ++ (b ++ [zipmapEnd])))
    (hgrow : (encodeEntry e).length < reqlen) (hfit : m.length-(encodeEntry e).length+reqlen < 2^32) :
    ∃ y, makeRoom m (some a.length) m.length reqlen =
        .ok (a ++ (y ++ (b ++ [zipmapEnd])), a.length, m.length-(encodeEntry e).length+reqlen, reqlen) ∧
      y.length = reqlen := by
  have hlen : m.length = a.length+(encodeEntry e).length+b.length+1 := by
    rw [hm]
    simp only [length_append, length_cons, length_nil]
    omega
  have hm1 : m = (a ++ (encodeEntry e ++ b)) ++ [zipmapEnd] := by
    rw [hm]
    simp only [append_assoc]
  obtain ⟨z, hresize, hz⟩ := zipmapResize_at (m.length-(encodeEntry e).length+reqlen) hm1
    (by simp only [length_append]; omega) hfit
  simp only [length_append] at hz
  -- the block behind the position, split where the tail is to begin
  let w := encodeEntry e ++ (b ++ z)
  have hw : w.length = reqlen+b.length := by
    simp only [w, length_append]
    omega
  have hsource : (a ++ (encodeEntry e ++ b)) ++ (z ++ [zipmapEnd]) =
      (a ++ encodeEntry e) ++ (b ++ (z ++ [zipmapEnd])) := by simp only [append_assoc]
  have htarget : (a ++ (encodeEntry e ++ b)) ++ (z ++ [zipmapEnd]) =
      (a ++ w.take reqlen) ++ (w.drop reqlen ++ [zipmapEnd]) := by
    rw [append_assoc a (w.take reqlen), ← append_assoc (w.take reqlen),
      take_append_drop]
    simp only [w, append_assoc]
  have htake : (w.take reqlen).length = reqlen := length_take_of_le (by omega)
  have hmove : moveBytes ((a ++ (encodeEntry e ++ b)) ++ (z ++ [zipmapEnd])) (a.length+reqlen)
      (a.length+(encodeEntry e).length) (m.length-(a.length+(encodeEntry e).length+1)) =
        .ok ((a ++ w.take reqlen) ++ (b ++ [zipmapEnd])) :=
    moveBytes_at hsource (by rw [length_append]) (by omega) htarget (by rw [length_append, htake]) (by rw [length_drop, hw]; omega)
  refine ⟨w.take reqlen, ?_, htake⟩
  rw [makeRoom, zipmapRawEntryLength_at he hm rfl, ok_bind, if_pos hgrow, hresize, ok_bind, hmove, ok_bind, append_assoc a]

theorem makeRoom_keep (he : EntryOk e) (hm : m = a ++ (encodeEntry e ++ c))
    (hkeep : ¬(encodeEntry e).length < reqlen) :
    makeRoom m (some a.length) zmlen reqlen = .ok (m, a.length, zmlen, (encodeEntry e).length) := by
  rw [makeRoom, zipmapRawEntryLength_at he hm rfl, ok_bind, if_neg hkeep]

theorem moveAndShrink {u x : Bytes} (hm : m = a ++ ((x ++ u) ++ (b ++ [zipmapEnd])))
    (hsize : m.length < 2^32) :
    ∃ m', moveBytes m (a.length+x.length) (a.length+(x ++ u).length)
        (m.length-(a.length+(x ++ u).length+1)) = .ok m' ∧
      zipmapResize m' (m.length-u.length) = .ok (a ++ (x ++ (b ++ [zipmapEnd]))) := by
  have hlen : m.length = a.length+x.length+u.length+b.length+1 := by
    rw [hm]
    simp only [length_append, length_cons, length_nil]
    omega
  let w := u ++ b
  have hsource : m = (a ++ (x ++ u)) ++ (b ++ [zipmapEnd]) := by
    rw [hm]
    simp only [append_assoc]
  have htarget : m = (a ++ x) ++ (w.take b.length ++ (w.drop b.length ++ [zipmapEnd])) := by
    rw [← append_assoc (w.take b.length), take_append_drop, hm]
    simp only [w, append_assoc]
  have htake : (w.take b.length).length = b.length :=
    length_take_of_le (by simp only [w, length_append]; omega)
  have hmove : moveBytes m (a.length+x.length) (a.length+(x ++ u).length)
      (m.length-(a.length+(x ++ u).length+1)) =
        .ok ((a ++ x) ++ (b ++ (w.drop b.length ++ [zipmapEnd]))) :=
    moveBytes_at hsource length_append.symm (by rw [length_append]; omega) htarget (by rw [length_append]) htake
  refine ⟨_, hmove, ?_⟩
  have hfront : (a ++ x) ++ (b ++ (w.drop b.length ++ [zipmapEnd])) =
      ((a ++ x) ++ b) ++ (w.drop b.length ++ [zipmapEnd]) := by simp only [append_assoc]
  obtain ⟨z, hresize, hz⟩ := zipmapResize_at (m.length-u.length) hfront
    (by simp only [length_append]; omega) (by omega)
  simp only [length_append] at hz
  have hnil : z = [] := List.eq_nil_of_length_eq_zero (by omega)
  rw [hresize, hnil]
  simp only [append_assoc, nil_append]

def bindings (es : List Entry) : List (Bytes × Bytes) := es.map Entry.binding

def setBinding (key val : Bytes) : List (Bytes × Bytes) → List (Bytes × Bytes)
  | [] => [(key, val)]
  | b :: bs => if b.1 = key then (key, val) :: bs else b :: setBinding key val bs

def delBinding (key : Bytes) (bs : List (Bytes × Bytes)) : List (Bytes × Bytes) :=
  bs.filter (fun b => b.1 ≠ key)

theorem setBinding_behind {bs : List (Bytes × Bytes)} (h : ∀ b ∈ bs, b.1 ≠ key)
    (cs : List (Bytes × Bytes)) : setBinding key val (bs ++ cs) = bs ++ setBinding key val cs := by
  induction bs with
  | nil => rfl
  | cons b bs ih =>
    have hb := h b mem_cons_self
    rw [cons_append, setBinding, if_neg hb, ih fun b hin => h b (List.mem_cons_of_mem _ hin)]
    rfl

theorem bindings_other (h : ∀ e ∈ es, e.key ≠ key) : ∀ b ∈ bindings es, b.1 ≠ key := by
  intro b hb
  obtain ⟨e, he, rfl⟩ := mem_map.1 hb
  exact h e he

theorem setBinding_new (h : ∀ e ∈ es, e.key ≠ key) :
    setBinding key val (bindings es) = bindings es ++ [(key, val)] := by
  have hset : setBinding key val (bindings es ++ []) = bindings es ++ [(key, val)] :=
    setBinding_behind (bindings_other h) []
  rwa [List.append_nil] at hset

theorem setBinding_found (h : ∀ x ∈ xs, x.key ≠ e.key) :
    setBinding e.key val (bindings (xs ++ e :: ys)) =
      bindings xs ++ ((e.key, val) :: bindings ys) := by
  have hcons : setBinding e.key val (bindings (e :: ys)) = (e.key, val) :: bindings ys := if_pos rfl
  rw [bindings, map_append]
  exact (setBinding_behind (bindings_other h) _).trans (congrArg _ hcons)

theorem delBinding_missing (h : ∀ e ∈ es, e.key ≠ key) :
    delBinding key (bindings es) = bindings es := by
  apply List.filter_eq_self.2
  intro b hb
  exact decide_eq_true (bindings_other h b hb)

theorem delBinding_found (hx : ∀ x ∈ xs, x.key ≠ e.key) (hy : ∀ y ∈ ys, y.key ≠ e.key) :
    delBinding e.key (bindings (xs ++ e :: ys)) = bindings (xs ++ ys) := by
  have hself : delBinding e.key (bindings (e :: ys)) = delBinding e.key (bindings ys) :=
    List.filter_cons_of_neg (by simp [Entry.binding])
  calc delBinding e.key (bindings (xs ++ e :: ys)) =
        delBinding e.key (bindings xs) ++ delBinding e.key (bindings (e :: ys)) := by
        simp [delBinding, bindings]
    _ = bindings xs ++ bindings ys := by
        rw [hself, delBinding_missing hx, delBinding_missing hy]
    _ = bindings (xs ++ ys) := by simp [bindings]

theorem written_ok (hr : r.length = zipmapRequiredLength key.length val.length+vempty)
    (hv : vempty < 4) (hlt : r.length < 2^32) : EntryOk (written key val r) := by
  have hreq : key.length+val.length ≤ zipmapRequiredLength key.length val.length := by
    rw [zipmapRequiredLength]
    omega
  rw [hr] at hlt
  refine ⟨lt_of_le_of_lt ?_ hlt, lt_of_le_of_lt ?_ hlt, ?_⟩
  · change key.length ≤ _
    omega
  · change val.length ≤ _
    omega
  · rw [written, length_drop]
    omega

theorem Holds.layout_at (h : Holds zm (xs ++ e :: ys)) : ∃ cnt, CountOk cnt (xs ++ e :: ys).length ∧
    zm = (cnt :: encodeEntries xs) ++ (encodeEntry e ++ (encodeEntries ys ++ [zipmapEnd])) := by
  obtain ⟨cnt, hcnt, hzm⟩ := h.layout
  refine ⟨cnt, hcnt, ?_⟩
  rw [hzm, blob]
  simp

theorem Holds.lookup_found (h : Holds zm (xs ++ e :: ys)) (cnt : UInt8) :
    zipmapLookupRaw zm (some e.key) true =
      .ok (some (cnt :: encodeEntries xs).length, zm.length) := by
  obtain ⟨cnt', -, hzm⟩ := h.layout
  rw [hzm, zipmapLookupRaw_blob (some e.key) true h.entries, scan_hit true 1 h.other.1, if_pos rfl,
    blob_length, length_cons]
  refine congrArg Except.ok (Prod.ext ?_ ?_)
  · exact congrArg some (Nat.add_comm _ _)
  · dsimp only
    omega

theorem Holds.replace {e' : Entry} (h : Holds zm (xs ++ e :: ys)) (he : EntryOk e')
    (hkey : e'.key = e.key) (hcnt : CountOk cnt (xs ++ e :: ys).length)
    (hsize : ((cnt :: encodeEntries xs) ++ (encodeEntry e' ++ (encodeEntries ys ++
      [zipmapEnd]))).length < 2^32) :
    Holds ((cnt :: encodeEntries xs) ++ (encodeEntry e' ++ (encodeEntries ys ++ [zipmapEnd])))
      (xs ++ e' :: ys) where
  entries := by
    intro x hx
    rcases mem_append.1 hx with hx | hx
    · exact h.entries x (List.mem_append_left _ hx)
    · rcases List.mem_cons.1 hx with rfl | hx
      · exact he
      · exact h.entries x (mem_append_right _ (List.mem_cons_of_mem _ hx))
  keys := by
    have hkeys := h.keys
    rw [map_append, map_cons] at hkeys ⊢
    rw [hkey]
    exact hkeys
  size := hsize
  layout := by
    refine ⟨cnt, ?_, ?_⟩
    · rw [length_append, length_cons] at hcnt ⊢
      exact hcnt
    · rw [blob]
      simp

theorem zipmapSet_new (h : Holds zm es) (hnew : ∀ e ∈ es, e.key ≠ key) (val : Bytes) :
    (zm.length+zipmapRequiredLength key.length val.length < 2^32 →
      ∃ zm' e', zipmapSet zm key val = .ok (zm', false) ∧ Holds zm' (es ++ [e']) ∧
        e'.binding = (key, val)) ∧
    (¬zm.length+zipmapRequiredLength key.length val.length < 2^32 →
      zipmapSet zm key val = .error .sizeWrap) := by
  let reqlen := zipmapRequiredLength key.length val.length
  obtain ⟨cnt, hcnt, hzm⟩ := h.layout
  have hlookup : zipmapLookupRaw zm (some key) true = .ok (none, zm.length) := by
    rw [hzm, zipmapLookupRaw_blob (some key) true h.entries,
      scan_missing 1 fun e he heq => hnew e he (Option.some.inj heq).symm, blob_length]
    refine congrArg (fun n => Except.ok (none, n)) ?_
    omega
  rw [zipmapSet, hlookup, ok_bind]
  dsimp only
  constructor
  · intro hfit
    obtain ⟨cnt', y, hroom, hy, hcnt'⟩ := makeRoom_new hcnt (b := encodeEntries es)
      (show zm = cnt :: encodeEntries es ++ [zipmapEnd] from hzm) hfit
    have hempty : reqlen-reqlen < zipmapValueMaxFree := by rw [Nat.sub_self]; decide
    have hy0 : y.length = reqlen+(reqlen-reqlen) := by omega
    rw [hroom, ok_bind]
    dsimp only
    rw [trimRoom_none hempty, ok_bind]
    dsimp only
    rw [writeEntry_at rfl rfl hy0, ok_bind]
    have hok : EntryOk (written key val y) := written_ok hy0 (by omega) (by omega)
    have hfree : (written key val y).free.length = 0 := by
      rw [written, length_drop]
      omega
    refine ⟨_, written key val y, rfl, ⟨?_, ?_, ?_, cnt', ?_, ?_⟩, rfl⟩
    · intro e he
      rcases mem_append.1 he with he | he
      · exact h.entries e he
      · rw [List.mem_singleton.1 he]
        exact hok
    · rw [map_append]
      refine List.nodup_append_comm.1 (List.nodup_cons.2 ⟨fun hin => ?_, h.keys⟩)
      obtain ⟨e, he, heq⟩ := mem_map.1 hin
      exact hnew e he heq
    · have hlen := encodeEntry_length (written key val y)
      rw [hfree] at hlen
      rw [hzm, blob_length] at hfit
      simp only [length_append, length_cons, length_nil, hlen]
      dsimp only [written]
      omega
    · rw [length_append]
      exact hcnt'
    · rw [blob]
      simp
  · intro hfit
    rw [makeRoom, zipmapResize_wraps (not_lt.1 hfit)]
    rfl

theorem zipmapSet_found (h : Holds zm (xs ++ e :: ys)) (val : Bytes) :
    ReturnsOr .sizeWrap (zipmapSet zm e.key val) (fun r => r.2 = true ∧ ∃ e',
      Holds r.1 (xs ++ e' :: ys) ∧ e'.binding = (e.key, val)) := by
  let reqlen := zipmapRequiredLength e.key.length val.length
  obtain ⟨cnt, hcnt, hm⟩ := h.layout_at
  have he := h.entries e (mem_append_right _ mem_cons_self)
  have hsize := h.size
  have hlookup := h.lookup_found cnt
  have hwritten {vempty : ℕ} {y : Bytes} (hy : y.length = reqlen+vempty) (hv : vempty < 4)
      (hlt : (cnt :: encodeEntries xs).length+y.length+(encodeEntries ys).length+1 < 2^32) :
      Holds ((cnt :: encodeEntries xs) ++ (encodeEntry (written e.key val y) ++ (encodeEntries ys ++
        [zipmapEnd]))) (xs ++ written e.key val y :: ys) := by
    have hfree : (written e.key val y).free.length = vempty := by
      rw [written, length_drop]
      omega
    refine h.replace (written_ok hy hv (by omega)) rfl hcnt ?_
    have hlen := encodeEntry_length (written e.key val y)
    rw [hfree] at hlen
    simp only [length_append, length_cons, length_nil, hlen] at hlt ⊢
    dsimp only [written]
    omega
  have hlen : zm.length = (cnt :: encodeEntries xs).length+(encodeEntry e).length+
      (encodeEntries ys).length+1 := by
    rw [hm]
    simp only [length_append, length_cons, length_nil]
    omega
  rw [zipmapSet, hlookup, ok_bind]
  dsimp only
  by_cases hgrow : (encodeEntry e).length < reqlen
  · by_cases hfit : zm.length-(encodeEntry e).length+reqlen < 2^32
    · obtain ⟨y, hroom, hy⟩ := makeRoom_grow he hm hgrow hfit
      have hempty : reqlen-reqlen < zipmapValueMaxFree := by rw [Nat.sub_self]; decide
      have hy0 : y.length = reqlen+(reqlen-reqlen) := by omega
      rw [hroom, ok_bind]
      dsimp only
      rw [trimRoom_none hempty, ok_bind]
      dsimp only
      rw [writeEntry_at rfl rfl hy0, ok_bind, returnsOr_ok]
      exact ⟨rfl, _, hwritten hy0 (by omega) (by omega), rfl⟩
    · have hwrap : zipmapResize zm _ = .error .sizeWrap := zipmapResize_wraps (not_lt.1 hfit)
      rw [makeRoom, zipmapRawEntryLength_at he hm rfl, ok_bind, if_pos hgrow, hwrap]
      rfl
  · rw [makeRoom_keep he hm hgrow, ok_bind]
    dsimp only
    by_cases hempty : (encodeEntry e).length-reqlen < zipmapValueMaxFree
    · have hy0 : (encodeEntry e).length = reqlen+((encodeEntry e).length-reqlen) := by omega
      rw [trimRoom_none hempty, ok_bind]
      dsimp only
      rw [writeEntry_at hm rfl hy0, ok_bind, returnsOr_ok]
      exact ⟨rfl, _, hwritten hy0 hempty (by omega), rfl⟩
    · -- the room is cut where the required bytes end
      let x := (encodeEntry e).take reqlen
      let u := (encodeEntry e).drop reqlen
      have hxu : x ++ u = encodeEntry e := take_append_drop _ _
      have hx : x.length = reqlen := length_take_of_le (not_lt.1 hgrow)
      have hu : u.length = (encodeEntry e).length-reqlen := length_drop
      obtain ⟨m', hmove, hresize⟩ := moveAndShrink (hxu.symm ▸ hm) hsize
      rw [hxu, hx] at hmove
      rw [hu] at hresize
      have hx0 : x.length = reqlen+0 := hx
      rw [trimRoom, if_pos (not_lt.1 hempty), hmove, ok_bind, hresize, ok_bind, ok_bind]
      dsimp only
      rw [writeEntry_at rfl rfl hx0, ok_bind, returnsOr_ok]
      exact ⟨rfl, _, hwritten hx0 (by omega) (by omega), rfl⟩

theorem zipmapSet_holds (h : Holds zm es) (key val : Bytes) :
    ReturnsOr .sizeWrap (zipmapSet zm key val) (fun r =>
      r.2 = decide (key ∈ (bindings es).map Prod.fst) ∧ ∃ es', Holds r.1 es' ∧
        bindings es' = setBinding key val (bindings es)) := by
  rcases find_key es key with hnew | ⟨xs, e, ys, rfl, rfl⟩
  · obtain ⟨hfits, hwraps⟩ := zipmapSet_new h hnew val
    by_cases hfit : zm.length+zipmapRequiredLength key.length val.length < 2^32
    · obtain ⟨zm', e', hset, hholds, hbinding⟩ := hfits hfit
      have hmissing : key ∉ (bindings es).map Prod.fst := by
        intro hin
        obtain ⟨b, hb, heq⟩ := mem_map.1 hin
        exact bindings_other hnew b hb heq
      rw [hset, returnsOr_ok]
      refine ⟨(decide_eq_false hmissing).symm, _, hholds, ?_⟩
      rw [setBinding_new hnew, ← hbinding, bindings, map_append]
      rfl
    · rw [hwraps hfit]
      rfl
  · refine (zipmapSet_found h val).mono fun r hr => ?_
    obtain ⟨hflag, e', hholds, hbinding⟩ := hr
    have hin : e.key ∈ (bindings (xs ++ e :: ys)).map Prod.fst := by simp [bindings, Entry.binding]
    refine ⟨hflag.trans (decide_eq_true hin).symm, _, hholds, ?_⟩
    rw [setBinding_found h.other.1, ← hbinding, bindings, map_append]
    rfl

theorem zipmapDel_found (h : Holds zm (xs ++ e :: ys)) :
    ∃ zm', zipmapDel zm e.key = .ok (zm', true) ∧ Holds zm' (xs ++ ys) := by
  obtain ⟨cnt, hcnt, hm⟩ := h.layout_at
  have he := h.entries e (mem_append_right _ mem_cons_self)
  have hsize := h.size
  have hlookup := h.lookup_found cnt
  have hm0 : zm = (cnt :: encodeEntries xs) ++ (([] ++ encodeEntry e) ++ (encodeEntries ys ++
      [zipmapEnd])) := hm
  obtain ⟨m', hmove, hresize⟩ := moveAndShrink hm0 hsize
  rw [length_nil, Nat.add_zero, nil_append] at hmove
  have hlength : (xs ++ e :: ys).length = (xs ++ ys).length+1 := by
    simp only [length_append, length_cons]
    omega
  rw [hlength] at hcnt
  obtain ⟨cnt', hdec, hcnt'⟩ := decrementCount_at hcnt
    (encodeEntries xs ++ (encodeEntries ys ++ [zipmapEnd]))
  refine ⟨(cnt' :: encodeEntries xs) ++ (encodeEntries ys ++ [zipmapEnd]), ?_, ?_, ?_, ?_, cnt',
    hcnt', ?_⟩
  · rw [zipmapDel, hlookup, ok_bind]
    dsimp only
    rw [zipmapRawEntryLength_at he hm rfl, ok_bind, hmove, ok_bind, hresize,
      ok_bind, nil_append, cons_append, hdec]
    rfl
  · intro x hx
    rcases mem_append.1 hx with hx | hx
    · exact h.entries x (List.mem_append_left _ hx)
    · exact h.entries x (mem_append_right _ (List.mem_cons_of_mem _ hx))
  · have hkeys := h.keys
    rw [map_append, map_cons] at hkeys
    rw [map_append]
    exact hkeys.sublist (List.Sublist.append_left (List.sublist_cons_self _ _) _)
  · rw [hm] at hsize
    simp only [length_append, length_cons, length_nil] at hsize ⊢
    omega
  · rw [blob]
    simp

theorem zipmapDel_holds (h : Holds zm es) (key : Bytes) :
    ∃ zm' es', zipmapDel zm key = .ok (zm', decide (key ∈ (bindings es).map Prod.fst)) ∧
      Holds zm' es' ∧ bindings es' = delBinding key (bindings es) := by
  rcases find_key es key with hnew | ⟨xs, e, ys, rfl, rfl⟩
  · obtain ⟨cnt, -, hzm⟩ := h.layout
    have hmissing : key ∉ (bindings es).map Prod.fst := by
      intro hin
      obtain ⟨b, hb, heq⟩ := mem_map.1 hin
      exact bindings_other hnew b hb heq
    have hdel : zipmapDel zm key = .ok (zm, false) := by
      rw [zipmapDel]
      rw [hzm, zipmapLookupRaw_blob (some key) true h.entries,
        scan_missing 1 fun e he heq => hnew e he (Option.some.inj heq).symm]
      rfl
    rw [decide_eq_false hmissing]
    exact ⟨_, _, hdel, h, (delBinding_missing hnew).symm⟩
  · obtain ⟨zm', hdel, hholds⟩ := zipmapDel_found h
    have hin : e.key ∈ (bindings (xs ++ e :: ys)).map Prod.fst := by simp [bindings, Entry.binding]
    rw [decide_eq_true hin]
    exact ⟨_, _, hdel, hholds, (delBinding_found h.other.1 h.other.2).symm⟩

end RedisCore.Zipmap
