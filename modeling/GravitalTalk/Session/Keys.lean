import GravitalTalk.Session.Rules

/-!
# Keys

Every key that a session can decrypt with was stored by a handshake.
-/
namespace GravitalTalk
namespace Machine

open Session Relation

variable {cfg : Config} {C : Crypto} {env : Env} {i : Arrival} {s₀ s t : Session cfg}

def Keyed (s : Session cfg) : Prop :=
  ∀ key, s.HoldsKey key → ∃ k ∈ s.history.installed, k.dec = key

theorem Keyed.mono (h : Keyed s) (hinst : t.history.installed = s.history.installed)
    (hkeys : ∀ key, t.HoldsKey key → s.HoldsKey key) : Keyed t := by
  intro key hkey
  rw [hinst]
  exact h key (hkeys key hkey)

theorem Keyed.of_eq (h : Keyed s) (hinst : t.history.installed = s.history.installed)
    (hpeers : t.peers = s.peers) : Keyed t := by
  refine h.mono hinst fun key hkey => ?_
  unfold HoldsKey at hkey ⊢
  rwa [hpeers] at hkey

theorem Keyed.uses (h : Keyed s) (hu : UsesKeys s t) : Keyed t :=
  h.mono hu.installed fun _ hkey => hkey.narrows hu.narrows

theorem Keyed.install (h : Keyed s) (peer : SocketAddr) (enc dec : SessionKey) :
    Keyed (s.installKeys env peer enc dec) := by
  intro key hkey
  have hnew : key = dec ∨ s.HoldsKey key := by
    rcases hkey with ⟨a, pair, ha, rfl⟩ | hkey
    · simp only [installKeys, Peers.install, Table.lookup_insert_eq] at ha
      split_ifs at ha
      · cases ha
        exact .inl rfl
      · exact .inr (.inl ⟨a, pair, ha, rfl⟩)
    · simp only [installKeys, Peers.install] at hkey
      split_ifs at hkey
      · cases hkey
        exact .inl rfl
      · exact .inr (.inr hkey)
  rcases hnew with rfl | hheld
  · exact ⟨_, List.mem_cons_self, rfl⟩
  · obtain ⟨k, hk, hdec⟩ := h key hheld
    exact ⟨k, List.mem_cons_of_mem _ hk, hdec⟩

theorem Keyed.effect (h : Keyed s) (he : Effect C env i s₀ s t) : Keyed t := by
  rcases he.keys with hu | ⟨peer, enc, dec, rfl⟩ | rfl
  · exact h.uses hu
  · exact h.install peer enc dec
  · rcases reopen_cases s with hs | ⟨hpeers, -, -⟩
    · rwa [hs]
    · rintro key (⟨a, pair, ha, -⟩ | hkey)
      · simp [hpeers, Peers.new] at ha
      · rw [hpeers] at hkey
        cases hkey

theorem keyed_initial (cfg : Config) (nonce : Vector UInt8 8) : Keyed (initial cfg nonce) := by
  rintro key (⟨a, pair, ha, -⟩ | hkey)
  · simp [initial, Peers.new] at ha
  · cases hkey

theorem Keyed.step {m : Machine C cfg} (h : Keyed m.session) (a : Action) :
    Keyed (step C env m a).session :=
  step_invariant (fun _ _ h => h.of_eq rfl rfl) (fun h he => h.effect he) h

/-- In every run, every key a session holds was installed. -/
theorem keyed_run (C : Crypto) (nonce : Vector UInt8 8) (steps : List (Env × Action)) :
    Keyed (run C (rest C (initial cfg nonce)) steps).session := by
  unfold run
  induction steps using List.reverseRecOn with
  | nil => exact keyed_initial cfg nonce
  | append_singleton steps x ih =>
    rw [List.foldl_append]
    exact ih.step x.2

end Machine
end GravitalTalk
