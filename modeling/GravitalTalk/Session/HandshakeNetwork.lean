import GravitalTalk.Session.Grounds
import GravitalTalk.Session.Newcomer

/-!
# Two sessions that shake hands

Two sessions with each other's address. The network may lose, repeat, delay and reorder
what they send; anybody else may send them what he likes under other addresses, and under
the right address everything but handshake messages. Each of the two may shake hands with
others as well, in either role, and start again as often as it likes.

When a client has stored keys, the server has stored the same keys before, the other way
round and under the same session id, and the codec is the server's choice for this client.
-/
namespace GravitalTalk

/-! ## What is read of a greeting -/

theorem ServerHello.codec_of_decode {m hello : ServerHello} (h : decode m.encode = .ok hello) :
    hello.codecAccepted = m.codecAccepted := by
  have hlen : ¬ m.encode.length < size := by simp [encode, size]
  have hcodec : m.encode.getD 69 0 = m.codecAccepted := by simp [encode]
  rw [decode, if_neg hlen, Except.ok.injEq] at h
  rw [← h]
  exact hcodec

theorem NoiseHello1.codec_of_decode {m hello : NoiseHello1} (h : decode m.encode = .ok hello) :
    hello.codecPreferred = m.codecPreferred := by
  have hlen : ¬ m.encode.length < size := by simp [encode, size]
  rw [decode, if_neg hlen, Except.ok.injEq] at h
  rw [← h]
  simp [encode]

theorem NoiseHello2.codec_of_decode {m hello : NoiseHello2} (h : decode m.encode = .ok hello) :
    hello.codecAccepted = m.codecAccepted := by
  have hlen : ¬ m.encode.length < size := by simp [encode, size]
  rw [decode, if_neg hlen, Except.ok.injEq] at h
  rw [← h]
  simp [encode]

/-- What one end of a Noise handshake reads from a message is what the other has written. -/
def Crypto.Conveys (C : Crypto) : Prop :=
  ∀ {sender sender' receiver receiver' : C.Noise} {payload read msg : Bytes},
    C.noiseWrite sender payload = some (msg, sender') →
    C.noiseRead receiver msg = some (read, receiver') → read = payload

namespace Machine

open Session Run

/-- Two machines, what each has sent to the other, and what each has gone by. -/
structure Duo (C : Crypto) (cfg : Bool → Config) where
  machine : ∀ who, Machine C (cfg who)
  wire : Bool → List Bytes
  journal : Bool → Journal

/-- The datagrams for `dest` that the transport took in a step. -/
def posted {cfg : Config} (env : Env) (dest : SocketAddr) (s t : Session cfg) : List Bytes :=
  ((newly s.traffic.sent t.traffic.sent).filter fun x =>
    x.1 == dest && (env.sendTo x.1 x.2).isOk).map Prod.snd

/-- What a machine that was asked `a` and is now `m` goes by from then on. -/
def noted {C : Crypto} {cfg : Config} (J : Journal) (a : Action) (m : Machine C cfg) : Journal where
  heard := a.heard.toList ++ J.heard
  clients := J.clients ∪ m.clientBonds
  servers := J.servers ∪ m.serverBonds
  rooms := J.rooms ∨ m.session.settings.multiPeer = true

namespace Duo

variable {C : Crypto} {cfg : Bool → Config}

/-- One of the two takes a step. -/
def step (addr : Bool → SocketAddr) (n : Duo C cfg) (x : Bool × Env × Action) : Duo C cfg :=
  let m := n.machine x.1
  let m' := Machine.step C x.2.1 m x.2.2
  { machine := Function.update n.machine x.1 m'
    wire := Function.update n.wire x.1
      (posted x.2.1 (addr (!x.1)) m.session m'.session ++ n.wire x.1)
    journal := Function.update n.journal x.1 (noted (n.journal x.1) x.2.2 m') }

/-- Both sessions are new. -/
def start (C : Crypto) (cfg : Bool → Config) (nonce : Bool → Vector UInt8 8) : Duo C cfg where
  machine who := rest C (initial (cfg who) (nonce who))
  wire _ := []
  journal _ := ⟨[], ∅, ∅, False⟩

/-- A handshake message that arrives under the other's address was sent by the other. -/
def Fair (addr : Bool → SocketAddr) (n : Duo C cfg) (x : Bool × Env × Action) : Prop :=
  Settled (n.machine x.1) x.2.2 ∧
    ∀ raw, x.2.2.heard = some (addr (!x.1), raw) → IsChat raw ∨ raw ∈ n.wire (!x.1)

/-- No tag belongs to keys of the one and to other keys of the other. -/
def Distinct (n : Duo C cfg) : Prop :=
  ∀ who, ∀ b ∈ (n.journal who).clients, ∀ b' ∈ (n.journal (!who)).servers,
    b.clientTag = b'.clientTag ∨ b.serverTag = b'.serverTag → b = b'

/-- What the other end has to show for keys stored for it. -/
inductive Agrees (addr : Bool → SocketAddr) (n : Duo C cfg) (who : Bool) (e : Install) : Prop
  | client {b : Bond} {e' : Install} (hb : b ∈ (n.journal who).clients)
      (henc : e.enc = b.clientKey) (hdec : e.dec = b.serverKey) (hsid : e.sessionId = b.sessionId)
      (hother : b ∈ (n.journal (!who)).servers)
      (he' : e' ∈ (n.machine (!who)).session.history.installed) (hpeer : e'.peer = addr who)
      (henc' : e'.enc = e.dec) (hdec' : e'.dec = e.enc) (hsid' : e'.sessionId = e.sessionId)
      (hcodec : chooseCodec (cfg (!who)) (cfg who).codecPreferred = .ok e.codec)
      (hcodec' : ¬ (n.journal (!who)).rooms → e'.codec = e.codec)
  | server {b : Bond} (hb : b ∈ (n.journal who).servers)
      (henc : e.enc = b.serverKey) (hdec : e.dec = b.clientKey) (hsid : e.sessionId = b.sessionId)
      (hother : b ∈ (n.journal (!who)).clients)
      (hcodec : ¬ (n.journal who).rooms →
        chooseCodec (cfg who) (cfg (!who)).codecPreferred = .ok e.codec)

/-! ## What holds of the two at any time -/

/-- Both machines are accounted for, and so is everything on the wire. -/
structure Accounted (addr : Bool → SocketAddr) (n : Duo C cfg) : Prop where
  attested : ∀ who, Attested (n.journal who) (n.machine who)
  servers : ∀ who, (n.machine who).serverBonds ⊆ (n.journal who).servers
  clients : ∀ who, (n.machine who).clientBonds ⊆ (n.journal who).clients
  rooms : ∀ who, (n.machine who).session.settings.multiPeer = true → (n.journal who).rooms
  wire : ∀ who, ∀ raw ∈ n.wire who, ∀ msg payload, msg.isGreeting = true → Bears raw msg payload →
    (n.journal who).Means C (cfg who) (n.machine who).session.history.installed (addr (!who)) msg
      payload
  heard : ∀ who raw, (addr (!who), raw) ∈ (n.journal who).heard →
    IsChat raw ∨ raw ∈ n.wire (!who)

theorem accounted_start (addr : Bool → SocketAddr) (C : Crypto) (cfg : Bool → Config)
    (nonce : Bool → Vector UInt8 8) : Accounted addr (start C cfg nonce) where
  attested who := by
    refine ⟨⟨nofun, ?_⟩, trivial⟩
    intro a p hp
    cases hp
  servers who := by
    rintro b (hb | ⟨a, p, hp, -⟩)
    · cases hb
    · cases hp
  clients who := nofun
  rooms who := nofun
  wire who := nofun
  heard who := nofun

theorem within_noted {cfg : Config} (J : Journal) (a : Action) (m : Machine C cfg) :
    J.Within (noted J a m) where
  heard := List.subset_append_right _ _
  clients := Set.subset_union_left
  servers := Set.subset_union_left
  rooms := .inl

theorem covers_noted {cfg : Config} {J : Journal} {m : Machine C cfg} {x : Env × Action}
    (hservers : m.serverBonds ⊆ J.servers) (hclients : m.clientBonds ⊆ J.clients)
    (hrooms : m.session.settings.multiPeer = true → J.rooms) :
    Covers (noted J x.2 (Machine.step C x.1 m x.2)) m x where
  heard d hd := by
    refine List.mem_append_left _ ?_
    rw [hd]
    exact List.mem_singleton_self d
  servers := hservers.trans Set.subset_union_left
  clients := hclients.trans Set.subset_union_left
  derives := Set.subset_union_right
  rooms h := .inl (hrooms h)

theorem installed_subset {cfg : Config} (m : Machine C cfg) (x : Env × Action) :
    m.session.history.installed ⊆ (Machine.step C x.1 m x.2).session.history.installed := by
  obtain ⟨new, moves, hnew, -⟩ := step_tracks m x
  rw [hnew]
  exact List.subset_append_right _ _

theorem wire_subset (addr : Bool → SocketAddr) (n : Duo C cfg) (x : Bool × Env × Action)
    (who : Bool) : n.wire who ⊆ (n.step addr x).wire who := by
  by_cases hwho : who = x.1
  · subst hwho
    simp only [step, Function.update_self]
    exact List.subset_append_right _ _
  · simp only [step, Function.update_of_ne hwho]
    exact List.Subset.refl _

/-- What the step of one machine puts on the wire. -/
theorem Accounted.posts {addr : Bool → SocketAddr} {n : Duo C cfg} {me : Bool} {x : Env × Action}
    (h : Accounted addr n) {J : Journal} {m : Machine C (cfg me)}
    (hwithin : (n.journal me).Within J) (hvouches : Vouches x.1 J (n.machine me).session m)
    (hinstalled : (n.machine me).session.history.installed ⊆ m.session.history.installed) :
    ∀ raw ∈ posted x.1 (addr (!me)) (n.machine me).session m.session ++ n.wire me,
      ∀ msg payload, msg.isGreeting = true → Bears raw msg payload →
        J.Means C (cfg me) m.session.history.installed (addr (!me)) msg payload := by
  obtain ⟨new, hnew, hgreets⟩ := hvouches.accounts.greets
  intro raw hraw msg payload hmsg hbears
  rw [posted, hnew, newly_append] at hraw
  rcases List.mem_append.mp hraw with hraw | hraw
  · obtain ⟨d, hd, rfl⟩ := List.mem_map.mp hraw
    obtain ⟨hd, hdest⟩ := List.mem_filter.mp hd
    rw [Bool.and_eq_true, beq_iff_eq] at hdest
    have hmeans := hgreets d hd hdest.2 msg payload hmsg hbears
    rwa [hdest.1] at hmeans
  · exact (h.wire me raw hraw msg payload hmsg hbears).mono hwithin hinstalled

theorem Accounted.step {addr : Bool → SocketAddr} {n : Duo C cfg} (h : Accounted addr n)
    {x : Bool × Env × Action} (hfair : Fair addr n x) : Accounted addr (n.step addr x) := by
  obtain ⟨me, x⟩ := x
  obtain ⟨hsettled, harrives⟩ := hfair
  have hwithin := within_noted (n.journal me) x.2 (Machine.step C x.1 (n.machine me) x.2)
  have hcovers := covers_noted (x := x) (h.servers me) (h.clients me) (h.rooms me)
  have hvouches := ((h.attested me).mono hwithin).step hcovers hsettled
  have hposts := h.posts hwithin hvouches (installed_subset (n.machine me) x)
  constructor
  · intro who
    by_cases hwho : who = me
    · subst hwho
      simp only [Duo.step, Function.update_self]
      exact ⟨hvouches.accounts.grounded, hvouches.task⟩
    · simp only [Duo.step, Function.update_of_ne hwho]
      exact h.attested who
  · intro who
    by_cases hwho : who = me
    · subst hwho
      simp only [Duo.step, Function.update_self]
      exact Set.subset_union_right
    · simp only [Duo.step, Function.update_of_ne hwho]
      exact h.servers who
  · intro who
    by_cases hwho : who = me
    · subst hwho
      simp only [Duo.step, Function.update_self]
      exact Set.subset_union_right
    · simp only [Duo.step, Function.update_of_ne hwho]
      exact h.clients who
  · intro who
    by_cases hwho : who = me
    · subst hwho
      simp only [Duo.step, Function.update_self]
      exact .inr
    · simp only [Duo.step, Function.update_of_ne hwho]
      exact h.rooms who
  · intro who
    by_cases hwho : who = me
    · subst hwho
      simp only [Duo.step, Function.update_self]
      exact hposts
    · simp only [Duo.step, Function.update_of_ne hwho]
      exact h.wire who
  · intro who raw hraw
    have hgrows := wire_subset addr n (me, x) (!who)
    have hold : IsChat raw ∨ raw ∈ n.wire (!who) := by
      by_cases hwho : who = me
      · subst hwho
        simp only [Duo.step, Function.update_self, noted] at hraw
        rcases List.mem_append.mp hraw with hraw | hraw
        · rw [Option.mem_toList] at hraw
          exact harrives raw hraw
        · exact h.heard who raw hraw
      · simp only [Duo.step, Function.update_of_ne hwho] at hraw
        exact h.heard who raw hraw
    exact hold.imp id fun h => hgrows h

/-! ## What follows -/

theorem Accounted.heard_means {addr : Bool → SocketAddr} {n : Duo C cfg} (h : Accounted addr n)
    {who : Bool} {msg : MessageType} {payload : Bytes} (hmsg : msg.isGreeting = true)
    (hheard : (n.journal who).Heard (addr (!who)) msg payload) :
    (n.journal (!who)).Means C (cfg (!who)) (n.machine (!who)).session.history.installed (addr who)
      msg payload := by
  obtain ⟨raw, hraw, hbears⟩ := hheard
  rcases h.heard who raw hraw with hchat | hwire
  · exact absurd hbears (hchat msg payload hmsg)
  · have hmeans := h.wire (!who) raw hwire msg payload hmsg hbears
    rwa [Bool.not_not] at hmeans

/-- A greeting that was heard from the other asks for what the other prefers. -/
theorem Accounted.chosen {addr : Bool → SocketAddr} {n : Duo C cfg} (h : Accounted addr n)
    (hC : C.Conveys) {who : Bool} {codec : UInt8}
    (hchosen : (n.journal who).Chosen C (cfg who) (addr (!who)) codec) :
    chooseCodec (cfg who) (cfg (!who)).codecPreferred = .ok codec := by
  obtain ⟨preferred, hasked, hchoose⟩ := hchosen
  have hpreferred : preferred = (cfg (!who)).codecPreferred := by
    cases hasked with
    | legacy hheard hdecode hcodec =>
      cases h.heard_means rfl hheard with
      | clientHello hown =>
        rw [ClientHello.decode_encode] at hdecode
        cases hdecode
        rw [← hcodec, hown]
    | noise hheard hread hdecode hcodec =>
      cases h.heard_means rfl hheard with
      | noiseHello1 hown hwrite =>
        rw [hC hwrite hread] at hdecode
        rw [← hcodec, NoiseHello1.codec_of_decode hdecode, hown]
  rwa [hpreferred] at hchoose

/-- An answer that was heard from the other names the codec that the other has chosen. -/
theorem Accounted.named {addr : Bool → SocketAddr} {n : Duo C cfg} (h : Accounted addr n)
    (hC : C.Conveys) {who : Bool} {codec : UInt8}
    (hnamed : (n.journal who).Named C (addr (!who)) codec) :
    chooseCodec (cfg (!who)) (cfg who).codecPreferred = .ok codec := by
  have hchosen : (n.journal (!who)).Chosen C (cfg (!who)) (addr (!!who)) codec := by
    rw [Bool.not_not]
    cases hnamed with
    | legacy hheard hdecode hcodec =>
      cases h.heard_means rfl hheard with
      | serverHello hown =>
        rwa [← hcodec, ServerHello.codec_of_decode hdecode]
    | noise hheard hread hdecode hcodec =>
      cases h.heard_means rfl hheard with
      | noiseHello2 hown hwrite =>
        rw [hC hwrite hread] at hdecode
        rwa [← hcodec, NoiseHello2.codec_of_decode hdecode]
  have hchoose := h.chosen hC hchosen
  rwa [Bool.not_not] at hchoose

theorem Accounted.agrees {addr : Bool → SocketAddr} {n : Duo C cfg} (h : Accounted addr n)
    (hC : C.Conveys) (hdistinct : Distinct n) {who : Bool} {e : Install}
    (he : e ∈ (n.machine who).session.history.installed) (hpeer : e.peer = addr (!who)) :
    Agrees addr n who e := by
  cases (h.attested who).session.installed e he with
  | server hb henc hdec hsid hheard hdecode htag hcodec =>
    rw [hpeer] at hheard hcodec
    cases h.heard_means rfl hheard with
    | keyExchange hb' =>
      rw [TagMsg.decode_encode] at hdecode
      cases hdecode
      rename_i b b'
      have hsame : b' = b := by
        apply hdistinct (!who) b' hb' b _ (.inl htag)
        rwa [Bool.not_not]
      subst hsame
      refine .server hb henc hdec hsid hb' ?_
      intro hrooms
      exact h.chosen hC (hcodec.resolve_left hrooms)
  | client hb henc hdec hsid hheard hdecode htag hcodec =>
    rw [hpeer] at hheard hcodec
    cases h.heard_means rfl hheard with
    | confirm hb' he' hpeer' henc' hdec' hsid' hcodec' =>
      rw [TagMsg.decode_encode] at hdecode
      cases hdecode
      rename_i b b' e'
      have hsame : b = b' := hdistinct who b hb b' hb' (.inr htag.symm)
      subst hsame
      have hchoose := h.named hC hcodec
      refine .client hb henc hdec hsid hb' he' hpeer' (henc'.trans hdec.symm)
        (hdec'.trans henc.symm) (hsid'.trans hsid.symm) hchoose ?_
      intro hrooms
      have hchosen : (n.journal (!who)).Chosen C (cfg (!who)) (addr (!!who)) e'.codec := by
        rw [Bool.not_not]
        exact hcodec'.resolve_left hrooms
      have hchoose' := h.chosen hC hchosen
      rw [Bool.not_not, hchoose] at hchoose'
      exact (Except.ok.inj hchoose').symm

/-- What a journal says was derived, the machine has had in hand. -/
theorem derived_step (addr : Bool → SocketAddr) (who : Bool) (n : Duo C cfg)
    (x : Bool × Env × Action) : ((n.step addr x).journal who).clients ⊆
        (n.journal who).clients ∪ ((n.step addr x).machine who).clientBonds ∧
      ((n.step addr x).journal who).servers ⊆
        (n.journal who).servers ∪ ((n.step addr x).machine who).serverBonds := by
  by_cases hwho : who = x.1
  · subst hwho
    simp only [step, Function.update_self, noted]
    exact ⟨subset_rfl, subset_rfl⟩
  · simp only [step, Function.update_of_ne hwho]
    exact ⟨Set.subset_union_left, Set.subset_union_left⟩

namespace Meeting

/-- Noise messages that say what they carry behind the key. -/
def courier : Crypto :=
  { Crypto.toy with
    noiseWrite := fun (hs : Bytes × ℕ) payload =>
      some ((fixed 32 hs.1).toList ++ payload, (hs.1, hs.2 + 1))
    noiseRead := fun (hs : Bytes × ℕ) msg =>
      if msg.take 32 = (fixed 32 hs.1).toList then some (msg.drop 32, (hs.1, hs.2 + 1)) else none }

theorem courier_conveys : courier.Conveys := by
  intro sender sender' receiver receiver' payload read msg hwrite hread
  have hmsg : (fixed 32 sender.1).toList ++ payload = msg :=
    (Prod.ext_iff.mp (Option.some.inj hwrite)).1
  have hread' : (if msg.take 32 = (fixed 32 receiver.1).toList then
      some (msg.drop 32, (receiver.1, receiver.2 + 1)) else none) = some (read, receiver') := hread
  split_ifs at hread'
  have hdrop : msg.drop 32 = read := (Prod.ext_iff.mp (Option.some.inj hread')).1
  rw [← hdrop, ← hmsg, List.drop_left' (by simp)]

def hostAddr : SocketAddr := .v4 #v[192, 168, 7, 2] 5000

def guestAddr : SocketAddr := .v4 #v[192, 168, 7, 3] 5000

/-- The guest is `true`. -/
def addr (who : Bool) : SocketAddr := if who then guestAddr else hostAddr

noncomputable def moment (nonce : UInt8) : Env :=
  { Env.basic 1000000 guestAddr with nonce32 := Vector.replicate 32 nonce }

def begun : Duo courier fun _ => Config.default :=
  start courier (fun _ => Config.default) fun _ => Vector.replicate 8 0

/-- The newest datagram of `who`. -/
noncomputable def newest (steps : List (Bool × Env × Action)) (who : Bool) : Bytes :=
  ((steps.foldl (step addr) begun).wire who).headD []

noncomputable def knocks : List (Bool × Env × Action) :=
  [(false, moment 1, .handshake .server guestAddr), (true, moment 2, .handshake .client hostAddr)]

noncomputable def answers : List (Bool × Env × Action) :=
  knocks ++ [(false, moment 1, .input (.datagram guestAddr (newest knocks true)))]

noncomputable def exchanges : List (Bool × Env × Action) :=
  answers ++ [(true, moment 2, .input (.datagram hostAddr (newest answers false)))]

noncomputable def confirms : List (Bool × Env × Action) :=
  exchanges ++ [(false, moment 1, .input (.datagram guestAddr (newest exchanges true)))]

noncomputable def steps : List (Bool × Env × Action) :=
  confirms ++ [(true, moment 2, .input (.datagram hostAddr (newest confirms false)))]

theorem fair_steps : Along (step addr) (Fair addr) begun steps := by
  have hnew {n : Duo courier fun _ => Config.default} {who : Bool} {raw : Bytes}
      (h : raw ∈ n.wire who) {sender : SocketAddr} : ∀ raw', some (sender, raw) =
      some (sender, raw') → IsChat raw' ∨ raw' ∈ n.wire who := by
    rintro raw' ⟨⟩
    exact .inr h
  refine ⟨⟨trivial, nofun⟩, ⟨rfl, nofun⟩, ⟨trivial, hnew ?_⟩, ⟨trivial, hnew ?_⟩,
    ⟨trivial, hnew ?_⟩, ⟨trivial, hnew ?_⟩, trivial⟩
  all_goals decide +kernel

/-- The state after `k` steps. -/
noncomputable def stage (k : ℕ) : Duo courier fun _ => Config.default :=
  (steps.take k).foldl (step addr) begun

/-- The guest's keys. -/
noncomputable def bond : Option Bond := ((stage 4).machine true).task.clientBond

theorem distinct_steps : Distinct (steps.foldl (step addr) begun) := by
  have hclients : ∀ k < 7, ∀ who, ((stage k).machine who).task.clientBond = none ∨
      ((stage k).machine who).task.clientBond = bond := by decide +kernel
  have hservers : ∀ k < 7, ∀ who, ((stage k).machine who).session.pendingJoins = ∅ ∧
      (((stage k).machine who).task.serverBond = none ∨
        ((stage k).machine who).task.serverBond = bond) := by decide +kernel
  rintro who b hb b' hb' -
  have hown : some b = bond := by
    rcases mem_of_collected (fun n : Duo _ _ => (n.journal who).clients)
      (fun n => (n.machine who).clientBonds) (fun n x => (derived_step addr who n x).1) hb with
      hb | ⟨k, hk, hb⟩
    · cases hb
    · change b ∈ ((stage k).machine who).clientBonds at hb
      rcases hclients k (Nat.lt_succ_of_le hk) who with hnone | hbond
      · cases hnone.symm.trans hb
      · exact hb.symm.trans hbond
  have hother : some b' = bond := by
    rcases mem_of_collected (fun n : Duo _ _ => (n.journal (!who)).servers)
      (fun n => (n.machine (!who)).serverBonds) (fun n x => (derived_step addr (!who) n x).2) hb'
      with hb' | ⟨k, hk, hb'⟩
    · cases hb'
    · change b' ∈ ((stage k).machine (!who)).serverBonds at hb'
      obtain ⟨hjoins, htask⟩ := hservers k (Nat.lt_succ_of_le hk) (!who)
      rcases hb' with hb' | ⟨a, p, hp, -⟩
      · rcases htask with hnone | hbond
        · cases hnone.symm.trans hb'
        · exact hb'.symm.trans hbond
      · rw [hjoins, Finmap.lookup_empty] at hp
        cases hp
  exact Option.some.inj (hown.trans hother.symm)

end Meeting

end Duo
end Machine
end GravitalTalk
