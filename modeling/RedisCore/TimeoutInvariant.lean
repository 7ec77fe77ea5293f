import RedisCore.TimeoutTable

namespace RedisCore.Timeouts

theorem beNat_cons (b : UInt8) (bs : Bytes) : beNat (b :: bs) = beNat bs+256^bs.length*b.toNat := by
  have happend (xs ys : Bytes) : leNat (xs ++ ys) = leNat xs+256^xs.length*leNat ys := by
    induction xs with
    | nil => simp [leNat]
    | cons x xs ih =>
      rw [List.cons_append, leNat, leNat, ih, List.length_cons, pow_succ]
      ring
  rw [beNat, List.reverse_cons, happend, List.length_reverse, beNat]
  simp [leNat]

theorem beNat_lt (bs : Bytes) : beNat bs < 256^bs.length := by
  have h := leNat_lt bs.reverse
  rwa [List.length_reverse] at h

theorem beNat_le_of_sdscmp {xs ys ss ts : Bytes} (hlen : xs.length = ys.length)
    (h : sdscmp (ys ++ ts) (xs ++ ss) ≠ .lt) : beNat xs ≤ beNat ys := by
  induction xs generalizing ys with
  | nil =>
    rw [List.eq_nil_of_length_eq_zero hlen.symm]
  | cons x xs ih =>
    cases ys with
    | nil => simp at hlen
    | cons y ys =>
      have hlen' : xs.length = ys.length := by simpa using hlen
      rw [List.cons_append, List.cons_append, sdscmp_cons_cons] at h
      rw [beNat_cons, beNat_cons, hlen']
      split_ifs at h with h1 h2
      · exact absurd rfl h
      · -- the first bytes differ, and outweigh what follows
        have hx := beNat_lt xs
        have hlt : x.toNat+1 ≤ y.toNat := UInt8.lt_iff_toNat_lt.1 h2
        rw [hlen'] at hx
        have hmul := Nat.mul_le_mul_left (256^ys.length) hlt
        rw [Nat.mul_add] at hmul
        omega
      · have hxy : x = y := UInt8.le_antisymm (UInt8.not_lt.1 h1) (UInt8.not_lt.1 h2)
        have hrest := ih hlen' h
        rw [hxy]
        omega

theorem raxFirst_none {table : List Bytes} (h : raxFirst table = none) : table = [] := by
  cases table with
  | nil => rfl
  | cons key keys =>
    rw [raxFirst] at h
    split at h
    · cases h
    · split at h <;> cases h

theorem raxFirst_some {table : List Bytes} {first : Bytes} (h : raxFirst table = some first) :
    first ∈ table ∧ ∀ key ∈ table, sdscmp key first ≠ .lt := by
  induction table generalizing first with
  | nil => simp [raxFirst] at h
  | cons key keys ih =>
    rw [raxFirst] at h
    cases hrest : raxFirst keys with
    | none =>
      rw [hrest] at h
      obtain rfl : key = first := Option.some.inj h
      rw [raxFirst_none hrest]
      simp
    | some least =>
      obtain ⟨hmem, hleast⟩ := ih hrest
      rw [hrest] at h
      dsimp only at h
      split_ifs at h with hlt
      · obtain rfl : least = first := Option.some.inj h
        refine ⟨List.mem_cons_of_mem _ hmem, ?_⟩
        intro k hk
        rcases List.mem_cons.1 hk with rfl | hk
        · rw [← sdscmp_swap, hlt]
          decide
        · exact hleast k hk
      · obtain rfl : key = first := Option.some.inj h
        refine ⟨List.mem_cons_self, ?_⟩
        intro k hk
        rcases List.mem_cons.1 hk with rfl | hk
        · simp
        · intro hkey
          -- what comes before `key` comes before `least` or is equal to it
          rcases hcmp : sdscmp key least with _ | _ | _
          · exact hleast k hk (sdscmp_trans hkey hcmp)
          · exact hleast k hk (sdscmp_eq_iff.1 hcmp ▸ hkey)
          · exact hlt (sdscmp_gt_iff.1 hcmp)

theorem decode_encode {timeout c : ℕ} (ht : timeout < 2^64) (hc : c < 2^64) :
    decodeTimeoutKey (encodeTimeoutKey timeout c) = (timeout, c) := by
  have htake : (encodeTimeoutKey timeout c).take 8 = beBytes 8 timeout :=
    List.take_left' (beBytes_length 8 timeout)
  have hdrop : ((encodeTimeoutKey timeout c).drop 8).take 8 = leBytes 8 c := by
    rw [encodeTimeoutKey, List.drop_left' (beBytes_length 8 timeout)]
    exact List.take_of_length_le (leBytes_length 8 c).le
  rw [decodeTimeoutKey, htake, hdrop, beNat_beBytes_of_lt (by omega), leNat_leBytes_of_lt (by omega)]

structure Lists (l clients : List ClientPtr) (P : ClientPtr → Prop) : Prop where
  nodup : l.Nodup
  mem (c : ClientPtr) : c ∈ l ↔ c ∈ clients ∧ P c

variable {l clients : List ClientPtr} {P Q : ClientPtr → Prop} {c : ClientPtr}

theorem Lists.congr (h : Lists l clients P) (hPQ : ∀ c ∈ clients, P c ↔ Q c) :
    Lists l clients Q := by
  refine ⟨h.nodup, fun c => ?_⟩
  rw [h.mem]
  exact and_congr_right (hPQ c)

theorem Lists.append (h : Lists l clients P) (hc : c ∈ clients) (hP : ¬P c) (hQ : Q c)
    (hother : ∀ c', c' ≠ c → (P c' ↔ Q c')) : Lists (l ++ [c]) clients Q := by
  have hnot : c ∉ l := fun hmem => hP ((h.mem c).1 hmem).2
  refine ⟨List.nodup_append_comm.1 (List.nodup_cons.2 ⟨hnot, h.nodup⟩), fun c' => ?_⟩
  rw [List.mem_append, List.mem_singleton, h.mem]
  by_cases heq : c' = c
  · subst heq
    simp [hc, hQ]
  · rw [hother c' heq]
    simp [heq]

theorem Lists.erase (h : Lists l clients P) (hQ : ¬Q c)
    (hother : ∀ c', c' ≠ c → (P c' ↔ Q c')) : Lists (l.erase c) clients Q := by
  refine ⟨h.nodup.erase c, fun c' => ?_⟩
  rw [h.nodup.mem_erase_iff, h.mem]
  by_cases heq : c' = c
  · subst heq
    simp [hQ]
  · rw [hother c' heq]
    simp [heq]

theorem Lists.forget (h : Lists l clients P) (hnodup : clients.Nodup) (hP : ¬P c) :
    Lists l (clients.erase c) P := by
  refine ⟨h.nodup, fun c' => ?_⟩
  rw [h.mem, hnodup.mem_erase_iff]
  constructor
  · intro ⟨hmem, hp⟩
    exact ⟨⟨fun heq => hP (heq ▸ hp), hmem⟩, hp⟩
  · intro ⟨⟨_, hmem⟩, hp⟩
    exact ⟨hmem, hp⟩

def Timed (cl : Client) : Prop := cl.blocked = true ∧ cl.timeout ≠ 0

def timeoutKey (c : ClientPtr) (cl : Client) : Bytes :=
  encodeTimeoutKey (toUnsigned 64 cl.timeout) c

structure Keys (table : List Bytes) (clients : List ClientPtr) (client : ClientPtr → Client) :
    Prop where
  nodup : table.Nodup
  mem (key : Bytes) :
    key ∈ table ↔ ∃ c ∈ clients, Timed (client c) ∧ key = timeoutKey c (client c)

variable {table : List Bytes} {client client' : ClientPtr → Client}

theorem decode_timeoutKey (cl : Client) (hc : c < 2^64) :
    decodeTimeoutKey (timeoutKey c cl) = (toUnsigned 64 cl.timeout, c) :=
  decode_encode (toUnsigned_lt 64 cl.timeout) hc

theorem timeoutKey_client {c c' : ClientPtr} {cl cl' : Client} (hc : c < 2^64) (hc' : c' < 2^64)
    (h : timeoutKey c cl = timeoutKey c' cl') : c = c' := by
  have hdecode := congrArg (fun key => (decodeTimeoutKey key).2) h
  rwa [decode_timeoutKey cl hc, decode_timeoutKey cl' hc'] at hdecode

theorem Keys.congr (h : Keys table clients client)
    (hsame : ∀ c ∈ clients, (client c).blocked = (client' c).blocked ∧
      (client c).timeout = (client' c).timeout) : Keys table clients client' := by
  refine ⟨h.nodup, fun key => ?_⟩
  rw [h.mem]
  refine exists_congr fun c => and_congr_right fun hc => ?_
  rw [Timed, Timed, timeoutKey, timeoutKey, (hsame c hc).1, (hsame c hc).2]

theorem Keys.insert (h : Keys table clients client) (hptr : ∀ c ∈ clients, c < 2^64)
    (hc : c ∈ clients) (hbefore : ¬Timed (client c)) (hafter : Timed (client' c))
    (hother : ∀ c', c' ≠ c → client' c' = client c') :
    timeoutKey c (client' c) ∉ table ∧
      Keys (timeoutKey c (client' c) :: table) clients client' := by
  have hnew : timeoutKey c (client' c) ∉ table := by
    intro hmem
    obtain ⟨c', hc', ht, heq⟩ := (h.mem _).1 hmem
    have hcc := timeoutKey_client (hptr c hc) (hptr c' hc') heq
    exact hbefore (hcc ▸ ht)
  refine ⟨hnew, List.nodup_cons.2 ⟨hnew, h.nodup⟩, fun key => ?_⟩
  rw [List.mem_cons, h.mem]
  constructor
  · intro hkey
    rcases hkey with rfl | ⟨c', hc', ht, rfl⟩
    · exact ⟨c, hc, hafter, rfl⟩
    · have hne : c' ≠ c := fun heq => hbefore (heq ▸ ht)
      exact ⟨c', hc', by rw [hother c' hne]; exact ht, by rw [hother c' hne]⟩
  · intro ⟨c', hc', ht, hkey⟩
    by_cases heq : c' = c
    · exact Or.inl (heq ▸ hkey)
    · rw [hother c' heq] at ht hkey
      exact Or.inr ⟨c', hc', ht, hkey⟩

theorem Keys.remove (h : Keys table clients client) (hptr : ∀ c ∈ clients, c < 2^64)
    (hc : c ∈ clients) (hafter : ¬Timed (client' c))
    (hother : ∀ c', c' ≠ c → client' c' = client c') :
    Keys (raxRemove table (timeoutKey c (client c))) clients client' := by
  refine ⟨h.nodup.filter _, fun key => ?_⟩
  rw [raxRemove, List.mem_filter, h.mem, decide_eq_true_eq]
  constructor
  · intro ⟨⟨c', hc', ht, hkey⟩, hne⟩
    have hne' : c' ≠ c := fun heq => hne (heq ▸ hkey)
    exact ⟨c', hc', by rw [hother c' hne']; exact ht, by rw [hother c' hne']; exact hkey⟩
  · intro ⟨c', hc', ht, hkey⟩
    have hne : c' ≠ c := fun heq => hafter (heq ▸ ht)
    rw [hother c' hne] at ht hkey
    refine ⟨⟨c', hc', ht, hkey⟩, fun heq => hne ?_⟩
    exact timeoutKey_client (hptr c' hc') (hptr c hc) (hkey.symm.trans heq)

theorem Keys.keep (h : Keys table clients client) (hbefore : ¬Timed (client c))
    (hafter : ¬Timed (client' c)) (hother : ∀ c', c' ≠ c → client' c' = client c') :
    Keys table clients client' := by
  refine ⟨h.nodup, fun key => ?_⟩
  rw [h.mem]
  refine exists_congr fun c' => and_congr_right fun _ => ?_
  by_cases heq : c' = c
  · rw [heq]
    simp only [hbefore, hafter, false_and]
  · rw [hother c' heq]

theorem Keys.clients_congr {clients' : List ClientPtr} (h : Keys table clients client)
    (hsame : ∀ c, Timed (client c) → (c ∈ clients ↔ c ∈ clients')) :
    Keys table clients' client := by
  refine ⟨h.nodup, fun key => ?_⟩
  rw [h.mem]
  refine exists_congr fun c => ?_
  constructor
  · intro ⟨hc, ht, hkey⟩
    exact ⟨(hsame c ht).1 hc, ht, hkey⟩
  · intro ⟨hc, ht, hkey⟩
    exact ⟨(hsame c ht).2 hc, ht, hkey⟩

structure Sound (cl : Client) : Prop where
  flag : cl.inToTable = true ↔ Timed cl
  btype : cl.blocked = true ↔ cl.btype ≠ .none
  low : -2^63 ≤ cl.timeout
  high : cl.timeout < 2^63

structure Consistent (s : Server) : Prop where
  nodup : s.clients.Nodup
  pointer : ∀ c ∈ s.clients, c < 2^64
  sound : ∀ c ∈ s.clients, Sound (s.client c)
  keys : Keys s.clientsTimeoutTable s.clients s.client
  waiting : Lists s.clientsWaitingAcks s.clients (fun c => (s.client c).btype = .wait)
  unblocked : Lists s.unblockedClients s.clients (fun c => (s.client c).unblocked = true)

theorem sound_initClient : Sound initClient where
  flag := by simp [initClient, Timed]
  btype := by simp [initClient]
  low := by simp [initClient]
  high := by simp [initClient]

theorem initServer_consistent : Consistent initServer where
  nodup := List.nodup_nil
  pointer := by simp [initServer]
  sound := by simp [initServer]
  keys := ⟨List.nodup_nil, by simp [initServer]⟩
  waiting := ⟨List.nodup_nil, by simp [initServer]⟩
  unblocked := ⟨List.nodup_nil, by simp [initServer]⟩

variable {s s' : Server} {btype : BlockedType}

@[simp] theorem setClient_self (s : Server) (c : ClientPtr) (cl : Client) :
    (setClient s c cl).client c = cl := by simp [setClient]

theorem setClient_other {c c' : ClientPtr} (s : Server) (cl : Client) (h : c' ≠ c) :
    (setClient s c cl).client c' = s.client c' := by simp [setClient, h]

def Kept (s s' : Server) : Prop := ∀ c ∈ s'.clients, (s'.client c).blocked = true →
  c ∈ s.clients ∧ (s.client c).blocked = true ∧ (s'.client c).timeout = (s.client c).timeout

theorem Kept.refl (s : Server) : Kept s s := fun _ hc hb => ⟨hc, hb, rfl⟩

theorem Kept.trans {s1 s2 s3 : Server} (h1 : Kept s1 s2) (h2 : Kept s2 s3) : Kept s1 s3 := by
  intro c hc hb
  obtain ⟨hc2, hb2, ht2⟩ := h2 c hc hb
  obtain ⟨hc1, hb1, ht1⟩ := h1 c hc2 hb2
  exact ⟨hc1, hb1, ht2.trans ht1⟩

theorem Consistent.keepClient {cl : Client} (hs : Consistent s) (hb : cl.blocked = (s.client c).blocked)
    (hu : cl.unblocked = (s.client c).unblocked) (hf : cl.inToTable = (s.client c).inToTable)
    (ht : cl.btype = (s.client c).btype) (hd : cl.timeout = (s.client c).timeout) :
    Consistent (setClient s c cl) := by
  have hpoint (c' : ClientPtr) : ((setClient s c cl).client c').blocked =
      (s.client c').blocked ∧ ((setClient s c cl).client c').unblocked =
      (s.client c').unblocked ∧ ((setClient s c cl).client c').inToTable =
      (s.client c').inToTable ∧ ((setClient s c cl).client c').btype =
      (s.client c').btype ∧ ((setClient s c cl).client c').timeout =
      (s.client c').timeout := by
    by_cases heq : c' = c
    · subst heq
      rw [setClient_self]
      exact ⟨hb, hu, hf, ht, hd⟩
    · rw [setClient_other s cl heq]
      simp
  exact
    { nodup := hs.nodup
      pointer := hs.pointer
      sound := by
        intro c' hc'
        obtain ⟨h1, -, h3, h4, h5⟩ := hpoint c'
        obtain ⟨g1, g2, g3, g4⟩ := hs.sound c' hc'
        rw [Timed] at g1
        exact ⟨by rw [Timed, h1, h3, h5]; exact g1, by rw [h1, h4]; exact g2,
          by rw [h5]; exact g3, by rw [h5]; exact g4⟩
      keys := hs.keys.congr fun c' _ => ⟨(hpoint c').1.symm, (hpoint c').2.2.2.2.symm⟩
      waiting := hs.waiting.congr fun c' _ => by rw [(hpoint c').2.2.2.1]
      unblocked := hs.unblocked.congr fun c' _ => by rw [(hpoint c').2.1] }

theorem Consistent.addReply (hs : Consistent s) (c : ClientPtr) (r : Reply) :
    Consistent (addReply s c r) := hs.keepClient rfl rfl rfl rfl rfl

theorem addReply_kept (s : Server) (c : ClientPtr) (r : Reply) : Kept s (addReply s c r) := by
  intro c' hc' hb
  by_cases heq : c' = c
  · subst heq
    rw [addReply, setClient_self] at hb ⊢
    exact ⟨hc', hb, rfl⟩
  · rw [addReply, setClient_other s _ heq] at hb ⊢
    exact ⟨hc', hb, rfl⟩

def blockedClient (cl : Client) (btype : BlockedType) : Client :=
  { cl with
    blocked := true
    btype := btype
    inToTable := if cl.timeout = 0 then cl.inToTable else true }

def blockResult (s : Server) (c : ClientPtr) (btype : BlockedType) : Server :=
  { s with
    client := Function.update s.client c (blockedClient (s.client c) btype)
    clientsTimeoutTable :=
      if (s.client c).timeout = 0 then s.clientsTimeoutTable
      else timeoutKey c (s.client c) :: s.clientsTimeoutTable
    blockedClients := s.blockedClients+1
    blockedClientsByType :=
      Function.update s.blockedClientsByType btype (s.blockedClientsByType btype+1) }

theorem blockClient_eq (btype : BlockedType)
    (hnew : (s.client c).timeout ≠ 0 → timeoutKey c (s.client c) ∉ s.clientsTimeoutTable) :
    blockClient s c btype = blockResult s c btype := by
  by_cases hzero : (s.client c).timeout = 0
  · simp [blockClient, addClientToTimeoutTable, blockResult, blockedClient, setClient, hzero]
  · have hkey := hnew hzero
    rw [timeoutKey] at hkey
    simp [blockClient, addClientToTimeoutTable, blockResult, blockedClient, setClient, hzero,
      raxTryInsert, hkey, timeoutKey]

theorem Consistent.change (hs : Consistent s) (hclients : s'.clients = s.clients)
    (hother : ∀ c', c' ≠ c → s'.client c' = s.client c') (hsound : Sound (s'.client c))
    (hkeys : Keys s'.clientsTimeoutTable s.clients s'.client)
    (hwait : Lists s'.clientsWaitingAcks s.clients (fun c => (s'.client c).btype = .wait))
    (hunblocked : Lists s'.unblockedClients s.clients (fun c => (s'.client c).unblocked = true)) :
    Consistent s' where
  nodup := hclients ▸ hs.nodup
  pointer := hclients ▸ hs.pointer
  sound := by
    intro c' hc'
    by_cases heq : c' = c
    · rw [heq]
      exact hsound
    · rw [hother c' heq]
      exact hs.sound c' (hclients ▸ hc')
  keys := hclients ▸ hkeys
  waiting := hclients ▸ hwait
  unblocked := hclients ▸ hunblocked

theorem Consistent.block {waiting : List ClientPtr} (hs : Consistent s) (hc : c ∈ s.clients)
    (hfree : (s.client c).blocked = false) (hbtype : btype ≠ .none)
    (hwait : waiting = if btype = .wait then s.clientsWaitingAcks ++ [c]
      else s.clientsWaitingAcks) :
    blockClient { s with clientsWaitingAcks := waiting } c btype =
        blockResult { s with clientsWaitingAcks := waiting } c btype ∧
      Consistent (blockResult { s with clientsWaitingAcks := waiting } c btype) := by
  have hsound := hs.sound c hc
  have hnot : ¬Timed (s.client c) := by
    intro ht
    rw [Timed, hfree] at ht
    exact Bool.noConfusion ht.1
  have hnone : (s.client c).btype = .none := by
    by_contra hsome
    rw [hsound.btype.2 hsome] at hfree
    exact Bool.noConfusion hfree
  let s' := blockResult { s with clientsWaitingAcks := waiting } c btype
  have hself : s'.client c = blockedClient (s.client c) btype := Function.update_self ..
  have hother (c' : ClientPtr) (hne : c' ≠ c) : s'.client c' = s.client c' :=
    Function.update_of_ne hne ..
  have hinsert (hzero : (s.client c).timeout ≠ 0) :
      timeoutKey c (s.client c) ∉ s.clientsTimeoutTable ∧
        Keys (timeoutKey c (s.client c) :: s.clientsTimeoutTable) s.clients s'.client := by
    have hafter : Timed (s'.client c) := by
      rw [hself]
      exact ⟨rfl, hzero⟩
    have h := hs.keys.insert hs.pointer hc hnot hafter hother
    rw [hself] at h
    exact h
  have hkeys : Keys s'.clientsTimeoutTable s.clients s'.client := by
    by_cases hzero : (s.client c).timeout = 0
    · have htable : s'.clientsTimeoutTable = s.clientsTimeoutTable := if_pos hzero
      have hafter : ¬Timed (s'.client c) := by
        rw [hself]
        exact fun ht => ht.2 hzero
      rw [htable]
      exact hs.keys.keep hnot hafter hother
    · have htable : s'.clientsTimeoutTable =
          timeoutKey c (s.client c) :: s.clientsTimeoutTable := if_neg hzero
      rw [htable]
      exact (hinsert hzero).2
  have hlists : Lists waiting s.clients (fun c => (s'.client c).btype = .wait) := by
    rw [hwait]
    split_ifs with hw
    · refine hs.waiting.append hc (by rw [hnone]; decide) ?_ fun c' hne => by rw [hother c' hne]
      rw [hself]
      exact hw
    · refine hs.waiting.congr fun c' _ => ?_
      by_cases heq : c' = c
      · rw [heq, hself, hnone]
        simp [blockedClient, hw]
      · rw [hother c' heq]
  have hunblocked : Lists s'.unblockedClients s.clients (fun c => (s'.client c).unblocked = true) := by
    refine hs.unblocked.congr fun c' _ => ?_
    by_cases heq : c' = c
    · rw [heq, hself]
      rfl
    · rw [hother c' heq]
  refine ⟨blockClient_eq btype fun hzero => (hinsert hzero).1,
    hs.change rfl hother ?_ hkeys hlists hunblocked⟩
  have hflag := hsound.flag
  change Sound (s'.client c)
  rw [hself]
  refine ⟨?_, ?_, hsound.low, hsound.high⟩
  · by_cases hzero : (s.client c).timeout = 0
    · simpa [blockedClient, Timed, hzero, hnot] using hflag
    · simp [blockedClient, Timed, hzero]
  · simpa [blockedClient] using hbtype

def unblockedClient (cl : Client) : Client :=
  { cl with
    blocked := false
    unblocked := true
    inToTable := false
    btype := .none }

def unblockResult (s : Server) (c : ClientPtr) : Server :=
  { s with
    client := Function.update s.client c (unblockedClient (s.client c))
    clientsTimeoutTable :=
      if (s.client c).inToTable then
        raxRemove s.clientsTimeoutTable (timeoutKey c (s.client c))
      else s.clientsTimeoutTable
    clientsWaitingAcks :=
      if (s.client c).btype = .wait then s.clientsWaitingAcks.erase c else s.clientsWaitingAcks
    unblockedClients :=
      if (s.client c).unblocked then s.unblockedClients else s.unblockedClients ++ [c]
    blockedClients := s.blockedClients-1
    blockedClientsByType := Function.update s.blockedClientsByType (s.client c).btype
      (s.blockedClientsByType (s.client c).btype-1) }

theorem unblockByType_eq (hbtype : (s.client c).btype ≠ .none)
    (hwait : (s.client c).btype = .wait → c ∈ s.clientsWaitingAcks) :
    unblockByType s c = .ok { s with
      clientsWaitingAcks :=
        if (s.client c).btype = .wait then s.clientsWaitingAcks.erase c
        else s.clientsWaitingAcks } := by
  rw [unblockByType]
  cases hb : (s.client c).btype with
  | none => exact absurd hb hbtype
  | wait =>
    dsimp only
    rw [unblockClientWaitingReplicas, if_pos (hwait hb), if_pos rfl]
  | list => simp
  | zset => simp
  | stream => simp

theorem unblockClient_eq (hbtype : (s.client c).btype ≠ .none)
    (hwait : (s.client c).btype = .wait → c ∈ s.clientsWaitingAcks) :
    unblockClient s c = .ok (unblockResult s c) := by
  rw [unblockClient, unblockByType_eq hbtype hwait, ok_bind]
  refine congrArg Except.ok ?_
  cases hf : (s.client c).inToTable <;> cases hu : (s.client c).unblocked <;>
    simp [removeClientFromTimeoutTable, queueClientForReprocessing, unblockResult, unblockedClient,
      setClient, timeoutKey, hf, hu]

theorem unblockResult_self (s : Server) (c : ClientPtr) :
    (unblockResult s c).client c = unblockedClient (s.client c) := Function.update_self ..

theorem unblockResult_other {c c' : ClientPtr} (s : Server) (h : c' ≠ c) :
    (unblockResult s c).client c' = s.client c' := Function.update_of_ne h ..

theorem Consistent.unblock (hs : Consistent s) (hc : c ∈ s.clients)
    (hblocked : (s.client c).blocked = true) :
    unblockClient s c = .ok (unblockResult s c) ∧ Consistent (unblockResult s c) ∧
      Kept s (unblockResult s c) := by
  have hsound := hs.sound c hc
  have hself := unblockResult_self s c
  have hother (c' : ClientPtr) (hne : c' ≠ c) := unblockResult_other s hne
  have hafter : ¬Timed ((unblockResult s c).client c) := by
    rw [hself]
    exact fun ht => Bool.noConfusion ht.1
  refine ⟨unblockClient_eq (hsound.btype.1 hblocked) fun hw => (hs.waiting.mem c).2 ⟨hc, hw⟩, ?_, ?_⟩
  · refine hs.change rfl hother ?_ ?_ ?_ ?_
    · rw [hself]
      exact ⟨by simp [unblockedClient, Timed], by simp [unblockedClient], hsound.low, hsound.high⟩
    · rw [unblockResult]
      dsimp only
      split_ifs with hflag
      · exact hs.keys.remove hs.pointer hc hafter hother
      · have hnot : ¬Timed (s.client c) := fun ht => hflag (hsound.flag.2 ht)
        exact hs.keys.keep hnot hafter hother
    · rw [unblockResult]
      dsimp only
      have hafter : ¬((unblockResult s c).client c).btype = .wait := by
        rw [hself]
        exact BlockedType.noConfusion
      have hkeep (c' : ClientPtr) (hne : c' ≠ c) : (s.client c').btype = .wait ↔
          ((unblockResult s c).client c').btype = .wait := by rw [hother c' hne]
      split_ifs with hw
      · exact hs.waiting.erase hafter hkeep
      · refine hs.waiting.congr fun c' _ => ?_
        by_cases heq : c' = c
        · rw [heq]
          exact ⟨fun h => absurd h hw, fun h => absurd h hafter⟩
        · exact hkeep c' heq
    · have hafter : ((unblockResult s c).client c).unblocked = true := by
        rw [hself]
        rfl
      have hkeep (c' : ClientPtr) (hne : c' ≠ c) : (s.client c').unblocked = true ↔
          ((unblockResult s c).client c').unblocked = true := by rw [hother c' hne]
      rw [unblockResult]
      dsimp only
      split_ifs with hu
      · refine hs.unblocked.congr fun c' _ => ?_
        by_cases heq : c' = c
        · rw [heq]
          exact ⟨fun _ => hafter, fun _ => hu⟩
        · exact hkeep c' heq
      · exact hs.unblocked.append hc hu hafter hkeep
  · intro c' hc' hb
    by_cases heq : c' = c
    · rw [heq, hself] at hb
      exact Bool.noConfusion hb
    · rw [hother c' heq] at hb ⊢
      exact ⟨hc', hb, rfl⟩

end RedisCore.Timeouts
