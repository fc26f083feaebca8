import GravitalTalk.Session.Keys

/-!
# Nonces

The nonce of a packet is made of its number. Every sender of a session takes its
numbers from one counter, which only `reopen` sets back, and `reopen` forgets
the keys. So a nonce comes back under a key only for the packet it was made for,
which goes to several peers, or after the counter has gone around.
-/
namespace GravitalTalk

theorem makeNonce_sequence {a b sid sid' : UInt32} (h : makeNonce a sid = makeNonce b sid') :
    a = b := by
  have htake (seq id : UInt32) : (makeNonce seq id).take 4 = be32 seq := by
    simp [makeNonce]
  have hbytes := congrArg (fun l : Bytes => fromBe32 (l.take 4)) h
  simpa only [htake, fromBe32_be32] using hbytes

namespace Machine

open Session

variable {cfg : Config} {C : Crypto} {env : Env} {i : Arrival} {s₀ s t : Session cfg}

/-- Every stored key is new. -/
def KeysDistinct (s : Session cfg) : Prop := (s.history.installed.map Install.enc).Nodup

/-- A key is in use while fewer than `2 ^ 32` numbers are taken. -/
def KeysShortLived (s : Session cfg) : Prop :=
  ∀ e ∈ s.traffic.sealed, ∀ k ∈ s.history.installed, k.enc = e.key → e.taken - k.taken < 2 ^ 32

instance (s : Session cfg) : Decidable (KeysDistinct s) := inferInstanceAs (Decidable (List.Nodup _))

instance (s : Session cfg) : Decidable (KeysShortLived s) :=
  inferInstanceAs (Decidable (∀ e ∈ s.traffic.sealed, _))

/-- The books that can be kept about a run: `out` is what went out under each of
the numbers, counted over all connections, `base` how many had been taken when
the connection of a key began, and `start` the same for the current one. -/
structure Ledger (out : ℕ → Bytes × Bytes) (base : SessionKey → ℕ) (start : ℕ) (s : Session cfg) :
    Prop where
  start_le : start ≤ s.traffic.taken
  counter : s.traffic.txSequence = UInt32.ofNat (s.traffic.taken - start)
  held : ∀ key, s.peers.SealsWith key →
    base key = start ∧ ∃ k ∈ s.history.installed, k.enc = key
  installed : ∀ k ∈ s.history.installed, base k.enc ≤ k.taken ∧ k.taken ≤ s.traffic.taken
  bound : ∀ e ∈ s.traffic.sealed, e.taken ≤ s.traffic.taken
  sealed : ∀ e ∈ s.traffic.sealed, ∃ k ∈ s.history.installed, k.enc = e.key ∧
    ∃ n, k.taken ≤ n ∧ n < e.taken ∧ out n = (e.aad, e.plain) ∧
      ∃ sid, e.nonce = makeNonce (UInt32.ofNat (n - base e.key)) sid

/-- While the stored keys are distinct, such books exist. -/
def Accounted (s : Session cfg) : Prop :=
  KeysDistinct s → ∃ out base start, Ledger out base start s

variable {out : ℕ → Bytes × Bytes} {base : SessionKey → ℕ} {start : ℕ}

/-- What is sent under the keys at hand is entered under the numbers taken for it. -/
theorem Ledger.uses (h : Ledger out base start s) (hu : UsesKeys s t) :
    ∃ out', Ledger out' base start t := by
  obtain ⟨n, new, entries, hem⟩ := hu.emits
  have hmono : s.traffic.taken ≤ t.traffic.taken := by
    rw [hem.taken]
    exact Nat.le_add_right _ _
  refine ⟨fun j => if j < s.traffic.taken then out j else new (j - s.traffic.taken),
    h.start_le.trans hmono, ?_, fun key hkey => ?_, fun k hk => ?_, fun e he => ?_, fun e he => ?_⟩
  · rw [hem.sequence, h.counter, ← UInt32.ofNat_add, hem.taken]
    congr 1
    have := h.start_le
    omega
  · rw [hu.installed]
    exact h.held key (hu.narrows.sealsWith hkey)
  · rw [hu.installed] at hk
    exact ⟨(h.installed k hk).1, (h.installed k hk).2.trans hmono⟩
  · rw [hem.sealed] at he
    rcases List.mem_append.mp he with he | he
    · exact hem.bound e he
    · exact (h.bound e he).trans hmono
  · rw [hem.sealed] at he
    rw [hu.installed]
    rcases List.mem_append.mp he with he | he
    · obtain ⟨hbase, k, hk, hkey⟩ := h.held e.key (hem.key e he)
      obtain ⟨j, hj, hafter, hout, sid, hnonce⟩ := hem.number e he
      refine ⟨k, hk, hkey, s.traffic.taken + j, ?_, hafter, ?_, sid, ?_⟩
      · exact (h.installed k hk).2.trans (Nat.le_add_right _ _)
      · rw [if_neg (by omega), Nat.add_sub_cancel_left, hout]
      · rw [hnonce, h.counter, ← UInt32.ofNat_add, hbase]
        congr 2
        have := h.start_le
        omega
    · obtain ⟨k, hk, hkey, m, hkm, hm, hout, hnonce⟩ := h.sealed e he
      refine ⟨k, hk, hkey, m, hkm, hm, ?_, hnonce⟩
      rw [if_pos (hm.trans_le (h.bound e he)), hout]

/-- A new key begins with the current connection. -/
theorem Ledger.install (h : Ledger out base start s) (peer : SocketAddr) (enc dec : SessionKey)
    (hnew : ∀ k ∈ s.history.installed, k.enc ≠ enc) :
    Ledger out (Function.update base enc start) start (s.installKeys env peer enc dec) := by
  have hbase (key : SessionKey) (hkey : ∃ k ∈ s.history.installed, k.enc = key) :
      Function.update base enc start key = base key := by
    obtain ⟨k, hk, rfl⟩ := hkey
    exact Function.update_of_ne (hnew k hk) _ _
  refine ⟨h.start_le, h.counter, fun key hkey => ?_, fun k hk => ?_, h.bound, fun e he => ?_⟩
  · have hcases : key = enc ∨ s.peers.SealsWith key := by
      rcases hkey with ⟨a, pair, ha, rfl⟩ | hkey
      · simp only [installKeys, Peers.install, Table.lookup_insert_eq] at ha
        split_ifs at ha
        · cases ha
          exact .inl rfl
        · exact .inr (.inl ⟨a, pair, ha, rfl⟩)
      · simp only [installKeys, Peers.install] at hkey
        split_ifs at hkey
        · cases hkey
          exact .inl rfl
        · exact .inr (.inr hkey)
    rcases hcases with rfl | hheld
    · exact ⟨Function.update_self _ _ _, _, List.mem_cons_self, rfl⟩
    · obtain ⟨hstart, k, hk, hkey⟩ := h.held key hheld
      exact ⟨(hbase key ⟨k, hk, hkey⟩).trans hstart, k, List.mem_cons_of_mem _ hk, hkey⟩
  · rcases List.mem_cons.mp hk with rfl | hk
    · exact ⟨(Function.update_self enc start base).trans_le h.start_le, le_rfl⟩
    · rw [hbase _ ⟨k, hk, rfl⟩]
      exact h.installed k hk
  · obtain ⟨k, hk, hkey, hrest⟩ := h.sealed e he
    refine ⟨k, List.mem_cons_of_mem _ hk, hkey, ?_⟩
    rw [hbase _ ⟨k, hk, hkey⟩]
    exact hrest

/-- The numbers start again, and no key is left that has seen them. -/
theorem Ledger.reopen (h : Ledger out base start s) :
    ∃ start, Ledger out base start s.reopen.2 := by
  rcases reopen_cases s with hs | ⟨hpeers, htraffic, hhistory⟩
  · rw [hs]
    exact ⟨start, h⟩
  · refine ⟨s.traffic.taken, ?_, ?_, fun key hkey => ?_, ?_, ?_, ?_⟩
    · rw [htraffic]
    · rw [htraffic, Nat.sub_self]
      rfl
    · rw [hpeers] at hkey
      rcases hkey with ⟨a, pair, ha, -⟩ | hkey
      · simp [Peers.new] at ha
      · cases hkey
    · rw [hhistory, htraffic]
      exact h.installed
    · rw [htraffic]
      exact h.bound
    · rw [hhistory, htraffic]
      exact h.sealed

theorem Accounted.effect (h : Accounted s) (he : Effect C env i s₀ s t) : Accounted t := by
  intro hdistinct
  rcases he.keys with hu | ⟨peer, enc, dec, rfl⟩ | rfl
  · unfold KeysDistinct at hdistinct
    rw [hu.installed] at hdistinct
    obtain ⟨out, base, start, hl⟩ := h hdistinct
    obtain ⟨out', hl'⟩ := hl.uses hu
    exact ⟨out', base, start, hl'⟩
  · obtain ⟨hnew, hdistinct⟩ := List.nodup_cons.mp hdistinct
    obtain ⟨out, base, start, hl⟩ := h hdistinct
    refine ⟨out, _, start, hl.install peer enc dec fun k hk henc => hnew ?_⟩
    exact List.mem_map.mpr ⟨k, hk, henc⟩
  · have hhistory : s.reopen.2.history = s.history := by
      rcases reopen_cases s with hs | ⟨-, -, hhistory⟩
      · rw [hs]
      · exact hhistory
    unfold KeysDistinct at hdistinct
    rw [hhistory] at hdistinct
    obtain ⟨out, base, start, hl⟩ := h hdistinct
    obtain ⟨start', hl'⟩ := hl.reopen
    exact ⟨out, base, start', hl'⟩

theorem accounted_initial (cfg : Config) (nonce : Vector UInt8 8) :
    Accounted (initial cfg nonce) := by
  refine fun _ => ⟨fun _ => ([], []), fun _ => 0, 0, le_rfl, rfl, ?_, nofun, nofun, nofun⟩
  rintro key (⟨a, pair, ha, -⟩ | hkey)
  · simp [initial, Peers.new] at ha
  · cases hkey

theorem Accounted.of_eq (h : Accounted s) (hpeers : t.peers = s.peers)
    (htraffic : t.traffic = s.traffic) (hhistory : t.history = s.history) : Accounted t := by
  intro hdistinct
  unfold KeysDistinct at hdistinct
  rw [hhistory] at hdistinct
  obtain ⟨out, base, start, hl⟩ := h hdistinct
  have hu : UsesKeys s t := .of_eq (by rw [hpeers]) htraffic (by rw [hhistory])
  obtain ⟨out', hl'⟩ := hl.uses hu
  exact ⟨out', base, start, hl'⟩

theorem accounted_run (C : Crypto) (nonce : Vector UInt8 8) (steps : List (Env × Action)) :
    Accounted (run C (rest C (initial cfg nonce)) steps).session := by
  unfold run
  induction steps using List.reverseRecOn with
  | nil => exact accounted_initial cfg nonce
  | append_singleton steps x ih =>
    rw [List.foldl_append]
    exact step_invariant (fun _ _ h => h.of_eq rfl rfl rfl) (fun h he => h.effect he) ih

/-- Two calls under one key whose numbers agree modulo `2 ^ 32` are about the same
number, as the key was stored once and not long ago. -/
theorem Ledger.same_number (h : Ledger out base start s) (hkeys : KeysDistinct s)
    (hlife : KeysShortLived s) {a b : Seal} (ha : a ∈ s.traffic.sealed)
    (hb : b ∈ s.traffic.sealed) (hkey : a.key = b.key) (hnonce : a.nonce = b.nonce) :
    (a.aad, a.plain) = (b.aad, b.plain) := by
  obtain ⟨k, hk, hka, n, hkn, hn, houta, sid, hna⟩ := h.sealed a ha
  obtain ⟨k', hk', hkb, m, hkm, hm, houtb, sid', hnb⟩ := h.sealed b hb
  obtain rfl : k = k' :=
    List.inj_on_of_nodup_map hkeys hk hk' (hka.trans (hkey.trans hkb.symm))
  have hbase := (h.installed k hk).1
  rw [hka] at hbase
  have hseq : UInt32.ofNat (n - base a.key) = UInt32.ofNat (m - base a.key) := by
    rw [hna, hnb, ← hkey] at hnonce
    exact makeNonce_sequence hnonce
  have hmod := congrArg UInt32.toNat hseq
  have hla := hlife a ha k hk hka
  have hlb := hlife b hb k hk hkb
  simp only [UInt32.toNat_ofNat'] at hmod
  have hnm : n = m := by omega
  rw [← houta, ← houtb, hnm]

/-- In every run in which every stored key is new, and is used only while fewer
than `2 ^ 32` numbers are taken since it was stored, any two calls of the cipher
under one key and one nonce are given the same header and the same plaintext. -/
theorem nonce_discipline (C : Crypto) (nonce : Vector UInt8 8)
    (hnew : Session.new cfg nonce = some s) (steps : List (Env × Action))
    (hkeys : KeysDistinct (run C (rest C s) steps).session)
    (hlife : KeysShortLived (run C (rest C s) steps).session) :
    ∀ a ∈ (run C (rest C s) steps).session.traffic.sealed,
      ∀ b ∈ (run C (rest C s) steps).session.traffic.sealed,
        a.key = b.key → a.nonce = b.nonce → a.aad = b.aad ∧ a.plain = b.plain := by
  intro a ha b hb hkey hnonce
  have hstart := eq_initial_of_new hnew
  subst hstart
  obtain ⟨out, base, start, h⟩ := accounted_run C nonce steps hkeys
  exact Prod.mk.inj (h.same_number hkeys hlife ha hb hkey hnonce)

/-- A pairing, two frames and a keepalive between them. -/
theorem nonce_discipline_pairing :
    let steps := Pairing.steps ++ [(Pairing.at' 1, .sendAudio [1]), (Pairing.at' 2, .turn),
      (Pairing.at' 3, .sendAudio [2])]
    let sealed := (run Crypto.toy (rest Crypto.toy
      (initial Config.default (Vector.replicate 8 0))) steps).session.traffic.sealed
    sealed.map Seal.taken = [5, 4, 3] ∧ ∀ a ∈ sealed, ∀ b ∈ sealed,
      a.key = b.key → a.nonce = b.nonce → a.aad = b.aad ∧ a.plain = b.plain := by
  refine ⟨by decide +kernel, ?_⟩
  exact nonce_discipline Crypto.toy (Vector.replicate 8 0) (new_default _) _ (by decide +kernel)
    (by decide +kernel)

end Machine
end GravitalTalk
