import RedisCore.BitCounting

namespace RedisCore.Bit

variable {s res : Bytes} {op : Bitop}

def wordByte (w : UInt64) (k : ℕ) : UInt8 := (leBytes 8 w.toNat).getD k 0

theorem wordByte_testBit (w : UInt64) (k : ℕ) {j : ℕ} (hj : j < 8) :
    (wordByte w k).toNat.testBit j = w.toNat.testBit (8*k+j) := by
  apply leBytes_testBit _ k hj
  exact lt_of_lt_of_eq w.toNat_lt (by norm_num)

theorem wordByte_combine (hop : op ≠ .not) (x y : UInt64) (k : ℕ) :
    wordByte (combineWord op x y) k = combineByte op (wordByte x k) (wordByte y k) := by
  apply byte_ext
  intro j hj
  rw [wordByte_testBit _ k hj]
  cases op with
  | and => rw [combineWord, combineByte, UInt64.toNat_and, UInt8.toNat_and, Nat.testBit_and,
      Nat.testBit_and, wordByte_testBit x k hj, wordByte_testBit y k hj]
  | or => rw [combineWord, combineByte, UInt64.toNat_or, UInt8.toNat_or, Nat.testBit_or,
      Nat.testBit_or, wordByte_testBit x k hj, wordByte_testBit y k hj]
  | xor => rw [combineWord, combineByte, UInt64.toNat_xor, UInt8.toNat_xor, Nat.testBit_xor,
      Nat.testBit_xor, wordByte_testBit x k hj, wordByte_testBit y k hj]
  | not => exact absurd rfl hop

theorem wordByte_not (x : UInt64) {k : ℕ} (hk : k < 8) : wordByte (~~~x) k = ~~~(wordByte x k) := by
  apply byte_ext
  intro j hj
  have hword : (~~~x).toNat = 2^64-(x.toNat+1) := by
    rw [UInt64.toNat_not, show UInt64.size = 2^64 from rfl]
    omega
  have hbyte : (~~~(wordByte x k)).toNat = 2^8-((wordByte x k).toNat+1) := by
    rw [UInt8.toNat_not, show UInt8.size = 2^8 from rfl]
    omega
  rw [wordByte_testBit _ k hj, hword, hbyte, Nat.testBit_two_pow_sub_succ x.toNat_lt,
    Nat.testBit_two_pow_sub_succ (wordByte x k).toNat_lt, wordByte_testBit x k hj,
    decide_eq_true (show 8*k+j < 64 by omega), decide_eq_true hj]

theorem loadUInt64_bytes {m : Bytes} {i : ℕ} (hin : i+8 ≤ m.length) :
    ∃ w, loadUInt64 m i = .ok w ∧ ∀ k < 8, wordByte w k = m.getD (i+k) 0 := by
  have hlen : ((m.drop i).take 8).length = 8 := by
    rw [List.length_take, List.length_drop]
    omega
  have hlt : leNat ((m.drop i).take 8) < 2^64 := by
    have h := leNat_lt ((m.drop i).take 8)
    rw [hlen] at h
    exact lt_of_lt_of_eq h (by norm_num)
  refine ⟨UInt64.ofNat (leNat ((m.drop i).take 8)), ?_, ?_⟩
  · rw [loadUInt64, loadBytes, if_pos hin]
    rfl
  · intro k hk
    have hsame := leBytes_leNat ((m.drop i).take 8)
    rw [hlen] at hsame
    rw [wordByte, UInt64.toNat_ofNat', Nat.mod_eq_of_lt hlt, hsame, List.getD_eq_getElem?_getD,
      List.getElem?_take_of_lt hk, List.getElem?_drop, ← List.getD_eq_getElem?_getD]

theorem storeUInt64_bytes {m : Bytes} {i : ℕ} (hin : i+8 ≤ m.length) (w : UInt64) :
    ∃ m', storeUInt64 m i w = .ok m' ∧ m'.length = m.length ∧
      ∀ k, m'.getD k 0 = if i ≤ k ∧ k < i+8 then wordByte w (k-i) else m.getD k 0 := by
  have h := @storeBytes_getD m (leBytes 8 w.toNat) i
    (by rw [leBytes_length]; exact hin)
  rw [leBytes_length] at h
  exact h

theorem combineAt_spec (hop : op ≠ .not) {lres k : ℕ} {lp : Bytes × ℕ}
    (hres : lres+8*k+8 ≤ res.length) (hlp : lp.2+8*k+8 ≤ lp.1.length) :
    ∃ res', combineAt op res lres lp k = .ok res' ∧ res'.length = res.length ∧
      ∀ m, res'.getD m 0 = if lres+8*k ≤ m ∧ m < lres+8*k+8 then
        combineByte op (res.getD m 0) (lp.1.getD (lp.2+(m-lres)) 0) else res.getD m 0 := by
  obtain ⟨x, hx, hxb⟩ := loadUInt64_bytes hres
  obtain ⟨y, hy, hyb⟩ := loadUInt64_bytes hlp
  obtain ⟨res', hstore, hlen, hget⟩ := storeUInt64_bytes hres (combineWord op x y)
  refine ⟨res', ?_, hlen, ?_⟩
  · rw [combineAt, hx, ok_bind, hy, ok_bind, hstore]
  · intro m
    rw [hget]
    by_cases hm : lres+8*k ≤ m ∧ m < lres+8*k+8
    · rw [if_pos hm, if_pos hm, wordByte_combine hop, hxb _ (by omega), hyb _ (by omega),
        show lres+8*k+(m-(lres+8*k)) = m by omega,
        show lp.2+8*k+(m-(lres+8*k)) = lp.2+(m-lres) by omega]
    · rw [if_neg hm, if_neg hm]

theorem invertAt_spec {lres k : ℕ} (hres : lres+8*k+8 ≤ res.length) :
    ∃ res', invertAt res lres k = .ok res' ∧ res'.length = res.length ∧
      ∀ m, res'.getD m 0 = if lres+8*k ≤ m ∧ m < lres+8*k+8 then ~~~(res.getD m 0)
        else res.getD m 0 := by
  obtain ⟨x, hx, hxb⟩ := loadUInt64_bytes hres
  obtain ⟨res', hstore, hlen, hget⟩ := storeUInt64_bytes hres (~~~x)
  refine ⟨res', ?_, hlen, ?_⟩
  · rw [invertAt, hx, ok_bind, hstore]
  · intro m
    rw [hget]
    by_cases hm : lres+8*k ≤ m ∧ m < lres+8*k+8
    · rw [if_pos hm, if_pos hm, wordByte_not x (by omega), hxb _ (by omega),
        show lres+8*k+(m-(lres+8*k)) = m by omega]
    · rw [if_neg hm, if_neg hm]

theorem four_words {f : ℕ → UInt8 → UInt8} {lres : ℕ} {r0 r1 r2 r3 r4 : Bytes}
    (h1 : ∀ m, r1.getD m 0 = if lres+8*0 ≤ m ∧ m < lres+8*0+8 then f m (r0.getD m 0) else r0.getD m 0)
    (h2 : ∀ m, r2.getD m 0 = if lres+8*1 ≤ m ∧ m < lres+8*1+8 then f m (r1.getD m 0) else r1.getD m 0)
    (h3 : ∀ m, r3.getD m 0 = if lres+8*2 ≤ m ∧ m < lres+8*2+8 then f m (r2.getD m 0) else r2.getD m 0)
    (h4 : ∀ m, r4.getD m 0 = if lres+8*3 ≤ m ∧ m < lres+8*3+8 then f m (r3.getD m 0) else r3.getD m 0)
    (m : ℕ) :
    r4.getD m 0 = if lres ≤ m ∧ m < lres+32 then f m (r0.getD m 0) else r0.getD m 0 := by
  rw [h4, h3, h2, h1]
  split_ifs <;> first | rfl | omega

theorem combineSources_spec (hop : op ≠ .not) {lres : ℕ} (lps : List (Bytes × ℕ)) :
    ∀ {res : Bytes}, lres+32 ≤ res.length → (∀ lp ∈ lps, lp.2+32 ≤ lp.1.length) →
    ∃ res', combineSources op lres res lps =
        .ok (res', lps.map (fun lp => (lp.1, lp.2+32))) ∧ res'.length = res.length ∧
      ∀ m, res'.getD m 0 = if lres ≤ m ∧ m < lres+32 then
        lps.foldl (fun b lp => combineByte op b (lp.1.getD (lp.2+(m-lres)) 0)) (res.getD m 0)
        else res.getD m 0 := by
  induction lps with
  | nil =>
    intro res _ _
    exact ⟨res, rfl, rfl, fun m => (ite_self _).symm⟩
  | cons lp lps ih =>
    intro res hres hall
    have hlp := hall lp List.mem_cons_self
    obtain ⟨r1, hrun1, hlen1, h1⟩ := combineAt_spec (k := 0) hop (by omega : lres+8*0+8 ≤ res.length)
      (by omega : lp.2+8*0+8 ≤ lp.1.length)
    obtain ⟨r2, hrun2, hlen2, h2⟩ := combineAt_spec (k := 1) hop (by omega : lres+8*1+8 ≤ r1.length)
      (by omega : lp.2+8*1+8 ≤ lp.1.length)
    obtain ⟨r3, hrun3, hlen3, h3⟩ := combineAt_spec (k := 2) hop (by omega : lres+8*2+8 ≤ r2.length)
      (by omega : lp.2+8*2+8 ≤ lp.1.length)
    obtain ⟨r4, hrun4, hlen4, h4⟩ := combineAt_spec (k := 3) hop (by omega : lres+8*3+8 ≤ r3.length)
      (by omega : lp.2+8*3+8 ≤ lp.1.length)
    obtain ⟨r5, hrun5, hlen5, h5⟩ := @ih r4 (by omega)
      (fun lp' h => hall lp' (List.mem_cons_of_mem _ h))
    refine ⟨r5, ?_, by omega, ?_⟩
    · rw [combineSources, hrun1, ok_bind, hrun2, ok_bind, hrun3, ok_bind,
        hrun4, ok_bind, hrun5]
      rfl
    · intro m
      rw [h5, four_words (f := fun m b => combineByte op b (lp.1.getD (lp.2+(m-lres)) 0)) h1 h2 h3 h4,
        List.foldl_cons]
      split_ifs <;> rfl

theorem invertWords_spec {lres : ℕ} (hres : lres+32 ≤ res.length) :
    ∃ res', invertWords res lres = .ok res' ∧ res'.length = res.length ∧
      ∀ m, res'.getD m 0 = if lres ≤ m ∧ m < lres+32 then ~~~(res.getD m 0) else res.getD m 0 := by
  obtain ⟨r1, hrun1, hlen1, h1⟩ := invertAt_spec (k := 0) (by omega : lres+8*0+8 ≤ res.length)
  obtain ⟨r2, hrun2, hlen2, h2⟩ := invertAt_spec (k := 1) (by omega : lres+8*1+8 ≤ r1.length)
  obtain ⟨r3, hrun3, hlen3, h3⟩ := invertAt_spec (k := 2) (by omega : lres+8*2+8 ≤ r2.length)
  obtain ⟨r4, hrun4, hlen4, h4⟩ := invertAt_spec (k := 3) (by omega : lres+8*3+8 ≤ r3.length)
  refine ⟨r4, ?_, by omega, four_words (f := fun _ b => ~~~b) h1 h2 h3 h4⟩
  rw [invertWords, hrun1, ok_bind, hrun2, ok_bind, hrun3, ok_bind, hrun4]

def resultByte (op : Bitop) (first : Bytes) (rest : List Bytes) (i : ℕ) : UInt8 :=
  (rest.map (fun src => src.getD i 0)).foldl (combineByte op)
    (if op = Bitop.not then ~~~(first.getD i 0) else first.getD i 0)

theorem sourceByte_eq (src : Bytes) (j : ℕ) : sourceByte src j = .ok (src.getD j 0) := by
  unfold sourceByte
  split_ifs with hlen
  · rw [List.getD_eq_default _ _ hlen]
    rfl
  · exact loadByte_getD (by omega)

theorem foldBytes_eq (op : Bitop) (j : ℕ) (srcs : List Bytes) (output : UInt8) :
    foldBytes op j output srcs =
      .ok ((srcs.map (fun src => src.getD j 0)).foldl (combineByte op) output) := by
  induction srcs generalizing output with
  | nil => rfl
  | cons src srcs ih =>
    rw [foldBytes, sourceByte_eq, ok_bind, ih]
    rfl

theorem byteLoop_spec (op : Bitop) (first : Bytes) (rest : List Bytes) (n : ℕ) :
    ∀ {res : Bytes} {j : ℕ}, j+n = res.length →
    (∀ i < j, res.getD i 0 = resultByte op first rest i) →
    ∃ res', byteLoop op first rest n res j = .ok res' ∧ res'.length = res.length ∧
      ∀ i < res.length, res'.getD i 0 = resultByte op first rest i := by
  induction n with
  | zero =>
    intro res j hj hdone
    exact ⟨res, rfl, rfl, fun i hi => hdone i (by omega)⟩
  | succ n ih =>
    intro res j hj hdone
    obtain ⟨r1, hstore, hlen, hget⟩ := @storeBytes_getD res
      [resultByte op first rest j] j (by rw [List.length_singleton]; omega)
    obtain ⟨res', hrun, hlen', hall⟩ := @ih r1 (j+1) (by omega) (by
      intro i hi
      rw [hget, List.length_singleton]
      by_cases hij : i = j
      · rw [if_pos (by omega), hij, Nat.sub_self]
        rfl
      · rw [if_neg (by omega)]
        exact hdone i (by omega))
    refine ⟨res', ?_, by omega, fun i hi => hall i (by omega)⟩
    have hout : (do
        let output ← foldBytes op j (if op = Bitop.not then ~~~(first.getD j 0) else first.getD j 0) rest
        let res ← storeBytes res j [output]
        byteLoop op first rest n res (j+1)) = .ok res' := by
      rw [foldBytes_eq, ok_bind]
      have hbyte : storeBytes res j [(rest.map (fun src => src.getD j 0)).foldl (combineByte op)
          (if op = Bitop.not then ~~~(first.getD j 0) else first.getD j 0)] = .ok r1 := hstore
      rw [hbyte, ok_bind, hrun]
    rw [byteLoop, sourceByte_eq, ok_bind]
    exact hout

theorem fastLoop_spec (op : Bitop) (first : Bytes) (rest : List Bytes) (hnot : op = Bitop.not → rest = [])
    (fuel : ℕ) : ∀ {res : Bytes} {j minlen : ℕ}, minlen < fuel → j+minlen ≤ res.length →
    (∀ src ∈ rest, j+minlen ≤ src.length) →
    (∀ i < j, res.getD i 0 = resultByte op first rest i) →
    (∀ i, j ≤ i → i < j+minlen → res.getD i 0 = first.getD i 0) →
    ∃ res' j', fastLoop op fuel res j (rest.map (fun src => (src, j))) j minlen = .ok (res', j') ∧
      res'.length = res.length ∧ j' ≤ res.length ∧
      ∀ i < j', res'.getD i 0 = resultByte op first rest i := by
  induction fuel with
  | zero =>
    intro res j minlen hfuel
    omega
  | succ fuel ih =>
    intro res j minlen hfuel hres hrest hdone hfirst
    unfold fastLoop
    by_cases hblock : minlen ≥ 8*4
    · rw [if_pos hblock]
      -- one round is the operation on 32 bytes
      obtain ⟨r1, hround, hlen, hget⟩ : ∃ r1, (if op = Bitop.not then do
            let res ← invertWords res j
            return (res, rest.map (fun src => (src, j)))
          else combineSources op j res (rest.map (fun src => (src, j)))) =
          .ok (r1, rest.map (fun src => (src, j+8*4))) ∧ r1.length = res.length ∧
          ∀ m, r1.getD m 0 = if j ≤ m ∧ m < j+32 then resultByte op first rest m
            else res.getD m 0 := by
        by_cases hop : op = Bitop.not
        · obtain ⟨r1, hrun, hlen, hget⟩ := @invertWords_spec res j (by omega)
          have hnil := hnot hop
          refine ⟨r1, ?_, hlen, ?_⟩
          · rw [if_pos hop, hrun, hnil]
            rfl
          · intro m
            rw [hget]
            by_cases hm : j ≤ m ∧ m < j+32
            · rw [if_pos hm, if_pos hm, hfirst m hm.1 (by omega), resultByte, hnil, if_pos hop]
              rfl
            · rw [if_neg hm, if_neg hm]
        · obtain ⟨r1, hrun, hlen, hget⟩ := @combineSources_spec op hop j
            (rest.map (fun src => (src, j))) res (by omega) (by
              intro lp hlp
              obtain ⟨src, hsrc, rfl⟩ := List.mem_map.mp hlp
              have h := hrest src hsrc
              dsimp only
              omega)
          refine ⟨r1, ?_, hlen, ?_⟩
          · rw [if_neg hop, hrun, List.map_map]
            rfl
          · intro m
            rw [hget]
            by_cases hm : j ≤ m ∧ m < j+32
            · rw [if_pos hm, if_pos hm, hfirst m hm.1 (by omega), resultByte, if_neg hop,
                List.foldl_map, List.foldl_map]
              dsimp only
              rw [show j+(m-j) = m by omega]
            · rw [if_neg hm, if_neg hm]
      rw [hround, ok_bind]
      obtain ⟨res', j', hrun, hlen', hj', hall⟩ := @ih r1 (j+8*4) (minlen-8*4) (by omega) (by omega)
        (fun src hsrc => by have h := hrest src hsrc; omega)
        (by
          intro i hi
          rw [hget]
          by_cases hij : j ≤ i ∧ i < j+32
          · rw [if_pos hij]
          · rw [if_neg hij]
            exact hdone i (by omega))
        (by
          intro i hlow hhigh
          rw [hget, if_neg (by omega)]
          exact hfirst i (by omega) (by omega))
      exact ⟨res', j', hrun, by omega, by omega, hall⟩
    · rw [if_neg hblock]
      exact ⟨res, j, rfl, rfl, by omega, hdone⟩

theorem computeBitop_spec (aligned : Bool) (op : Bitop) (first : Bytes) (rest : List Bytes)
    (hnot : op = Bitop.not → rest = []) {maxlen minlen : ℕ}
    (hmin : ∀ src ∈ first :: rest, minlen ≤ src.length) (hmax : first.length ≤ maxlen) :
    ∃ res, computeBitop aligned op { src := first :: rest, maxlen := maxlen, minlen := minlen } =
        .ok res ∧ res.length = maxlen ∧ ∀ i < maxlen, res.getD i 0 = resultByte op first rest i := by
  have hfirstlen := hmin first List.mem_cons_self
  unfold computeBitop
  dsimp only
  obtain ⟨r1, j, hfast, hlen, hj, hdone⟩ : ∃ r1 j,
      (if aligned = false ∧ minlen ≥ 8*4 ∧ (first :: rest).length ≤ 16 then do
        let start ← loadBytes first 0 minlen
        let res ← storeBytes (List.replicate maxlen 0) 0 start
        fastLoop op (minlen+1) res 0 (rest.map (fun src => (src, 0))) 0 minlen
      else return (List.replicate maxlen 0, 0)) = .ok (r1, j) ∧ r1.length = maxlen ∧ j ≤ maxlen ∧
      ∀ i < j, r1.getD i 0 = resultByte op first rest i := by
    split_ifs with hpath
    · have hload : loadBytes first 0 minlen = .ok (first.take minlen) := by
        rw [loadBytes, if_pos (by omega), List.drop_zero]
      have htake : (first.take minlen).length = minlen := by
        rw [List.length_take]
        omega
      obtain ⟨r0, hstore, hlen0, hget⟩ := @storeBytes_getD (List.replicate maxlen 0)
        (first.take minlen) 0 (by rw [htake, List.length_replicate]; omega)
      rw [List.length_replicate] at hlen0
      obtain ⟨r1, j, hrun, hlen, hj, hdone⟩ := @fastLoop_spec op first rest hnot (minlen+1) r0 0
        minlen (Nat.lt_succ_self _) (by omega)
        (fun src hsrc => by have h := hmin src (List.mem_cons_of_mem _ hsrc); omega)
        (fun i hi => absurd hi (Nat.not_lt_zero i))
        (by
          intro i _ hi
          rw [hget, htake, if_pos (by omega), Nat.sub_zero, List.getD_eq_getElem?_getD,
            List.getElem?_take_of_lt (by omega), ← List.getD_eq_getElem?_getD])
      rw [hload, ok_bind, hstore, ok_bind, hrun]
      exact ⟨r1, j, rfl, by omega, by omega, hdone⟩
    · exact ⟨_, 0, rfl, List.length_replicate, Nat.zero_le _, fun i hi => absurd hi (Nat.not_lt_zero i)⟩
  rw [hfast, ok_bind]
  dsimp only
  obtain ⟨res, hrun, hlen', hall⟩ := @byteLoop_spec op first rest (maxlen-j) r1 j (by omega) hdone
  exact ⟨res, hrun, by omega, fun i hi => hall i (by omega)⟩

/-- The string of a key; a missing key counts as an empty string. -/
def sourceString (db : Keys) (key : Bytes) : Bytes :=
  match db key with
  | some (.string s) => s
  | _ => []

def longest (srcs : List Bytes) : ℕ := srcs.foldl (fun n src => max n src.length) 0

theorem longest_concat (srcs : List Bytes) (src : Bytes) :
    longest (srcs ++ [src]) = max (longest srcs) src.length := by
  rw [longest, List.foldl_append]
  rfl

theorem length_le_longest {srcs : List Bytes} {src : Bytes} (hmem : src ∈ srcs) :
    src.length ≤ longest srcs := by
  induction srcs using List.reverseRecOn with
  | nil => cases hmem
  | append_singleton srcs last ih =>
    rw [longest_concat]
    rcases List.mem_append.mp hmem with h | h
    · exact le_max_of_le_left (ih h)
    · rw [List.mem_singleton.mp h]
      exact le_max_right _ _

theorem lookupSources_spec (db : Keys) (keys : List Bytes) : ∀ {acc : Sources},
    acc.maxlen = longest acc.src → (∀ src ∈ acc.src, acc.minlen ≤ src.length) →
    ((∃ key ∈ keys, db key = some .other) → lookupSources db acc.src.length keys acc = none) ∧
    ((∀ key ∈ keys, db key ≠ some .other) → ∃ minlen,
      lookupSources db acc.src.length keys acc = some {
        src := acc.src ++ keys.map (sourceString db)
        maxlen := longest (acc.src ++ keys.map (sourceString db))
        minlen := minlen } ∧
      ∀ src ∈ acc.src ++ keys.map (sourceString db), minlen ≤ src.length) := by
  induction keys with
  | nil =>
    intro acc hmax hmin
    refine ⟨fun ⟨key, hkey, _⟩ => absurd hkey List.not_mem_nil, fun _ => ⟨acc.minlen, ?_, ?_⟩⟩
    · rw [List.map_nil, List.append_nil, ← hmax]
      rfl
    · rw [List.map_nil, List.append_nil]
      exact hmin
  | cons key keys ih =>
    intro acc hmax hmin
    -- one more source, and the rest
    have hnext : ∀ (s : Bytes) (minlen : ℕ), sourceString db key = s → db key ≠ some .other →
        minlen ≤ s.length → (∀ src ∈ acc.src, minlen ≤ src.length) →
        lookupSources db acc.src.length (key :: keys) acc =
          lookupSources db (acc.src.length+1) keys
            { src := acc.src ++ [s], maxlen := longest (acc.src ++ [s]), minlen := minlen } →
        ((∃ k ∈ key :: keys, db k = some .other) →
          lookupSources db acc.src.length (key :: keys) acc = none) ∧
        ((∀ k ∈ key :: keys, db k ≠ some .other) → ∃ minlen,
          lookupSources db acc.src.length (key :: keys) acc = some {
            src := acc.src ++ (key :: keys).map (sourceString db)
            maxlen := longest (acc.src ++ (key :: keys).map (sourceString db))
            minlen := minlen } ∧
          ∀ src ∈ acc.src ++ (key :: keys).map (sourceString db), minlen ≤ src.length) := by
      intro s minlen hs hother hle hall hrun
      have hlen : (acc.src ++ [s]).length = acc.src.length+1 := by
        rw [List.length_append, List.length_singleton]
      have hsplit : acc.src ++ (key :: keys).map (sourceString db) =
          (acc.src ++ [s]) ++ keys.map (sourceString db) := by
        rw [List.map_cons, hs, List.append_assoc, List.singleton_append]
      obtain ⟨hnone, hsome⟩ := @ih
        { src := acc.src ++ [s], maxlen := longest (acc.src ++ [s]), minlen := minlen } rfl (by
          intro src hsrc
          rcases List.mem_append.mp hsrc with h | h
          · exact hall src h
          · rw [List.mem_singleton.mp h]
            exact hle)
      rw [hlen] at hnone hsome
      rw [hrun, hsplit]
      refine ⟨?_, fun h => hsome (fun k hk => h k (List.mem_cons_of_mem _ hk))⟩
      rintro ⟨k, hk, hkother⟩
      rcases List.mem_cons.mp hk with h | h
      · exact absurd (h ▸ hkother) hother
      · exact hnone ⟨k, h, hkother⟩
    cases hkey : db key with
    | none =>
      apply hnext [] 0 (by rw [sourceString, hkey]) (by rw [hkey]; intro h; cases h)
        (Nat.zero_le _) (fun _ _ => Nat.zero_le _)
      rw [lookupSources, hkey, longest_concat, List.length_nil, Nat.max_zero, ← hmax]
    | some o =>
      cases o with
      | other =>
        refine ⟨fun _ => by rw [lookupSources, hkey], fun h => absurd hkey (h key List.mem_cons_self)⟩
      | string s =>
        have hmaxlen : (if s.length > acc.maxlen then s.length else acc.maxlen) =
            longest (acc.src ++ [s]) := by
          rw [longest_concat, ← hmax]
          split_ifs <;> omega
        apply hnext s (if acc.src.length = 0 ∨ s.length < acc.minlen then s.length else acc.minlen)
          (by rw [sourceString, hkey]) (by rw [hkey]; intro h; cases h)
        · split_ifs <;> omega
        · intro src hsrc
          have hpos := List.length_pos_of_mem hsrc
          have hle := hmin src hsrc
          split_ifs <;> omega
        · rw [lookupSources, hkey]
          dsimp only
          rw [hmaxlen]

def bytewise (op : Bitop) : List UInt8 → UInt8
  | [] => 0
  | b :: bs => bs.foldl (combineByte op) (if op = Bitop.not then ~~~b else b)

theorem bitopCommand_eq (db : Keys) (name target : Bytes) (keys : List Bytes) {opname : Bytes} {op : Bitop}
    (hop : bitopName opname = some op) (hnot : op = Bitop.not → keys.length = 1) (aligned : Bool) :
    bitopCommand aligned db (name :: opname :: target :: keys) =
      match lookupSources db 0 keys { src := [], maxlen := 0, minlen := 0 } with
      | none => .ok (.error wrongtypeerr, db)
      | some sources => do
        if sources.maxlen ≠ 0 then
          let res ← computeBitop aligned op sources
          return (.integer sources.maxlen, Function.update db target (some (.string res)))
        else return (.integer 0, Function.update db target none) := by
  have hargs : ¬ (op = Bitop.not ∧ (name :: opname :: target :: keys).length ≠ 4) := by
    rintro ⟨h, hlen⟩
    rw [List.length_cons, List.length_cons, List.length_cons, hnot h] at hlen
    exact hlen rfl
  unfold bitopCommand
  rw [show arg (name :: opname :: target :: keys) 1 = opname from rfl, hop]
  dsimp only
  rw [if_neg hargs]
  rfl

/-- `BITOP` over any number of keys, with and without the fast path. -/
theorem bitop_bytewise (db : Keys) (name opname target : Bytes) (keys : List Bytes) (op : Bitop)
    (hop : bitopName opname = some op) (hkeys : keys ≠ []) (hnot : op = Bitop.not → keys.length = 1) :
    ((∃ key ∈ keys, db key = some .other) → ∀ aligned : Bool,
      bitopCommand aligned db (name :: opname :: target :: keys) = .ok (.error wrongtypeerr, db)) ∧
    ((∀ key ∈ keys, db key ≠ some .other) → longest (keys.map (sourceString db)) = 0 →
      ∀ aligned : Bool, bitopCommand aligned db (name :: opname :: target :: keys) =
        .ok (.integer 0, Function.update db target none)) ∧
    ((∀ key ∈ keys, db key ≠ some .other) → longest (keys.map (sourceString db)) ≠ 0 →
      ∃ res : Bytes, res.length = longest (keys.map (sourceString db)) ∧
        (∀ i < res.length, res.getD i 0 =
          bytewise op ((keys.map (sourceString db)).map (fun src => src.getD i 0))) ∧
        ∀ aligned : Bool, bitopCommand aligned db (name :: opname :: target :: keys) =
          .ok (.integer (longest (keys.map (sourceString db))),
            Function.update db target (some (.string res)))) := by
  have hcommand := bitopCommand_eq db name target keys hop hnot
  obtain ⟨hnone, hsome⟩ := @lookupSources_spec db keys { src := [], maxlen := 0, minlen := 0 } rfl
    (fun src hsrc => absurd hsrc List.not_mem_nil)
  rw [List.length_nil] at hnone hsome
  simp only [List.nil_append] at hsome
  refine ⟨?_, ?_, ?_⟩
  · intro hother aligned
    rw [hcommand, hnone hother]
  · intro hall hzero aligned
    obtain ⟨minlen, hlookup, -⟩ := hsome hall
    rw [hcommand, hlookup]
    dsimp only
    rw [if_neg (not_not.mpr hzero)]
    rfl
  · intro hall hpos
    obtain ⟨minlen, hlookup, hmin⟩ := hsome hall
    obtain ⟨first, rest, hsrcs⟩ := List.exists_cons_of_ne_nil
      (show keys.map (sourceString db) ≠ [] by
        intro h
        exact hkeys (List.map_eq_nil_iff.mp h))
    have hrest : op = Bitop.not → rest = [] := by
      intro h
      have hlen := congrArg List.length hsrcs
      rw [List.length_map, hnot h, List.length_cons] at hlen
      exact List.length_eq_zero_iff.mp (by omega)
    rw [hsrcs] at hlookup hmin hpos ⊢
    have hcompute := fun aligned => computeBitop_spec aligned op first rest hrest hmin
      (@length_le_longest (first :: rest) _ List.mem_cons_self)
    obtain ⟨res, -, hlen, hget⟩ := hcompute true
    refine ⟨res, hlen, ?_, ?_⟩
    · intro i hi
      rw [hget i (by omega)]
      rfl
    · intro aligned
      obtain ⟨res', hrun', hlen', hget'⟩ := hcompute aligned
      have hsame : res' = res := by
        apply List.ext_getElem (by omega)
        intro i hi hi'
        have h := (hget' i (by omega)).trans (hget i (by omega)).symm
        rwa [List.getD_eq_getElem _ _ hi, List.getD_eq_getElem _ _ hi'] at h
      rw [hcommand, hlookup]
      dsimp only
      rw [if_pos hpos, hrun', hsame]
      rfl

theorem bitop_bytewise_and : ∃ res : Bytes, res.length = 2 ∧
    ∀ aligned : Bool, bitopCommand aligned
        (fun key => if key = [1] then some (.string [255, 7]) else none)
        [text "BITOP", text "AND", [9], [1], [2]] =
      .ok (.integer 2, Function.update
        (fun key => if key = [1] then some (.string [255, 7]) else none) [9] (some (.string res))) := by
  obtain ⟨res, hlen, -, hrun⟩ := (bitop_bytewise
    (fun key => if key = [1] then some (.string [255, 7]) else none) (text "BITOP") (text "AND") [9]
    [[1], [2]] .and (by decide) (by decide) (by decide)).2.2 (by decide) (by decide)
  exact ⟨res, hlen, hrun⟩

end RedisCore.Bit
