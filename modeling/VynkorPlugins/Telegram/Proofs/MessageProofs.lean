import VynkorPlugins.Base.Text
import VynkorPlugins.Telegram.Messages

/-!
# Peers and messages are the named ones

Which peer strings are read back as the peer they were written for, and which message ids reach Telegram
as they were asked for.
-/

namespace Telegram

/-! ## Peers -/

def Peer.kind : Peer → PeerKind
  | .user _ => .user
  | .group _ => .chat
  | .channel _ => .channel

def Peer.id : Peer → Int64
  | .user id => id
  | .group id => id
  | .channel id => id

/-- The string of a peer is read as that peer. -/
def RoundTrips (lib : PeerIds) (p : Peer) : Prop :=
  parse_peer lib (peer_to_string p) = .ok (.peer p.kind p.id)

/-- The ids in a string are in the ranges of the kinds it names, and a number is not the least one. -/
structure InRange (lib : PeerIds) (s : String) : Prop where
  user : ∀ t id, tagged "user:" s = some t → Rust.parseI64 t = some id → lib.inRange .user id
  chat : ∀ t id, tagged "chat:" s = some t → Rust.parseI64 t = some id → lib.inRange .chat id
  channel : ∀ t id, tagged "channel:" s = some t → Rust.parseI64 t = some id → lib.inRange .channel id
  number : ∀ id, Rust.parseI64 s.toList = some id →
    if id < 0 then id ≠ Int64.minValue ∧ lib.inRange .channel (-id) else lib.inRange .user id

variable {lib : PeerIds} {s : String} {p : Peer}

theorem tagged_append (tag t : String) : tagged tag (tag ++ t) = some t.toList := by
  unfold tagged
  rw [String.toList_append, if_pos (List.isPrefixOf_iff_prefix.mpr (List.prefix_append _ _)),
    ← String.length_toList, List.drop_left]

/-- A string with another beginning has not this tag. -/
theorem tagged_eq_none {tag : String} (h : ¬ tag.toList <+: s.toList) : tagged tag s = none :=
  if_neg fun hpre => h (List.isPrefixOf_iff_prefix.mp hpre)

theorem begins_of_tagged {tag : String} {t : List Char} (h : tagged tag s = some t) :
    tag.toList <+: s.toList := by
  by_contra hnot
  rw [tagged_eq_none hnot] at h
  cases h

/-- What begins with neither a digit nor a sign is no number. -/
theorem parseI64_of_head {c : Char} {cs : List Char} (hdigit : c.isDigit = false) (hminus : c ≠ '-')
    (hplus : c ≠ '+') : Rust.parseI64 (c :: cs) = none := by
  unfold Rust.parseI64
  split
  rename_i neg digits hsign
  split at hsign
  · rename_i heq
    exact absurd (List.cons.inj heq).1 hminus
  · rename_i heq
    exact absurd (List.cons.inj heq).1 hplus
  · obtain ⟨-, rfl⟩ := Prod.mk.inj hsign
    simp [hdigit]

theorem parseI64_print (id : Int64) : Rust.parseI64 (Json.int id.toInt).print.toList = some id := by
  rw [Json.print, Json.chars, String.toList_ofList, Rust.parseI64_intChars id.le_toInt id.toInt_lt,
    Int64.ofInt_toInt]

/-- A string has one tag at most. -/
theorem not_tagged {tag : String} {t : List Char} (other : String) (h : tagged tag s = some t)
    (hne : ¬ other.toList <+: tag.toList) (hne' : ¬ tag.toList <+: other.toList) : tagged other s = none := by
  have htag := begins_of_tagged h
  refine tagged_eq_none fun hother => ?_
  rcases Nat.le_total other.toList.length tag.toList.length with hle | hle
  · exact hne (List.prefix_of_prefix_length_le hother htag hle)
  · exact hne' (List.prefix_of_prefix_length_le htag hother hle)

theorem not_number_of_tagged {tag : String} {t : List Char} {c : Char} (h : tagged tag s = some t)
    (hc : tag.toList.head? = some c) (hdigit : c.isDigit = false) (hminus : c ≠ '-') (hplus : c ≠ '+') :
    Rust.parseI64 s.toList = none := by
  obtain ⟨rest, hs⟩ := begins_of_tagged h
  cases htag : tag.toList with
  | nil =>
    rw [htag] at hc
    cases hc
  | cons d ds =>
    rw [htag] at hc hs
    obtain rfl := Option.some.inj hc
    rw [← hs]
    exact parseI64_of_head hdigit hminus hplus

theorem make_panic {kind : PeerKind} {id : Int64} :
    lib.make kind id = .error .panic ↔ lib.inRange kind id = false := by
  unfold PeerIds.make
  split_ifs with h
  · simp [h]
  · simp [h]

theorem tag_panic {what : String} {kind : PeerKind} {t : List Char} :
    (parse_id what t).bind (lib.make kind) = .error .panic ↔
      ¬ ∀ id, Rust.parseI64 t = some id → lib.inRange kind id := by
  unfold parse_id
  cases hid : Rust.parseI64 t with
  | none => simp [Except.bind]
  | some id =>
    show lib.make kind id = _ ↔ _
    rw [make_panic]
    simp

theorem number_panic {id : Int64} :
    (if id < 0 then (abs_id id).bind (lib.make .channel) else lib.make .user id) = .error .panic ↔
      ¬ if id < 0 then id ≠ Int64.minValue ∧ lib.inRange .channel (-id) else lib.inRange .user id := by
  by_cases hneg : id < 0
  · rw [if_pos hneg, if_pos hneg]
    unfold abs_id
    by_cases hmin : id = Int64.minValue
    · rw [if_pos hmin]
      exact iff_of_true rfl fun h => h.1 hmin
    · rw [if_neg hmin, if_pos hneg]
      show lib.make .channel (-id) = _ ↔ _
      rw [make_panic]
      simp [hmin]
  · rw [if_neg hneg, if_neg hneg, make_panic]
    simp

theorem inRange_of_user {t : List Char} (h : tagged "user:" s = some t) :
    InRange lib s ↔ ∀ id, Rust.parseI64 t = some id → lib.inRange .user id := by
  have hchat := not_tagged "chat:" h (by simp) (by simp)
  have hchannel := not_tagged "channel:" h (by simp) (by simp)
  have hnumber := not_number_of_tagged (c := 'u') h (by simp) (by simp) (by simp) (by simp)
  constructor
  · exact fun hin id => hin.user t id h
  · intro hall
    refine ⟨?_, by simp [hchat], by simp [hchannel], by simp [hnumber]⟩
    intro t' id ht'
    obtain rfl := Option.some.inj (h.symm.trans ht')
    exact hall id

theorem inRange_of_chat {t : List Char} (h : tagged "chat:" s = some t) :
    InRange lib s ↔ ∀ id, Rust.parseI64 t = some id → lib.inRange .chat id := by
  have huser := not_tagged "user:" h (by simp) (by simp)
  have hchannel := not_tagged "channel:" h (by simp) (by simp)
  have hnumber := not_number_of_tagged (c := 'c') h (by simp) (by simp) (by simp) (by simp)
  constructor
  · exact fun hin id => hin.chat t id h
  · intro hall
    refine ⟨by simp [huser], ?_, by simp [hchannel], by simp [hnumber]⟩
    intro t' id ht'
    obtain rfl := Option.some.inj (h.symm.trans ht')
    exact hall id

theorem inRange_of_channel {t : List Char} (h : tagged "channel:" s = some t) :
    InRange lib s ↔ ∀ id, Rust.parseI64 t = some id → lib.inRange .channel id := by
  have huser := not_tagged "user:" h (by simp) (by simp)
  have hchat := not_tagged "chat:" h (by simp) (by simp)
  have hnumber := not_number_of_tagged (c := 'c') h (by simp) (by simp) (by simp) (by simp)
  constructor
  · exact fun hin id => hin.channel t id h
  · intro hall
    refine ⟨by simp [huser], by simp [hchat], ?_, by simp [hnumber]⟩
    intro t' id ht'
    obtain rfl := Option.some.inj (h.symm.trans ht')
    exact hall id

theorem inRange_of_number (huser : tagged "user:" s = none) (hchat : tagged "chat:" s = none)
    (hchannel : tagged "channel:" s = none) :
    InRange lib s ↔ ∀ id, Rust.parseI64 s.toList = some id →
      if id < 0 then id ≠ Int64.minValue ∧ lib.inRange .channel (-id) else lib.inRange .user id :=
  ⟨InRange.number, fun h => ⟨by simp [huser], by simp [hchat], by simp [hchannel], h⟩⟩

/-- The parser panics on ids out of range and on the least number only. -/
theorem parse_peer_panic_iff : parse_peer lib s = .error .panic ↔ ¬ InRange lib s := by
  unfold parse_peer
  by_cases hself : s = "self"
  · rw [if_pos hself]
    refine iff_of_false nofun (not_not_intro ?_)
    rw [hself]
    refine (inRange_of_number (tagged_eq_none (by simp)) (tagged_eq_none (by simp))
      (tagged_eq_none (by simp))).mpr fun id hid => ?_
    rw [show "self".toList = 's' :: "elf".toList from rfl, parseI64_of_head (by simp) (by simp) (by simp)] at hid
    cases hid
  rw [if_neg hself]
  cases huser : tagged "user:" s with
  | some t => exact tag_panic.trans (inRange_of_user huser).not.symm
  | none =>
  cases hchat : tagged "chat:" s with
  | some t => exact tag_panic.trans (inRange_of_chat hchat).not.symm
  | none =>
  cases hchannel : tagged "channel:" s with
  | some t => exact tag_panic.trans (inRange_of_channel hchannel).not.symm
  | none =>
    rw [inRange_of_number huser hchat hchannel]
    dsimp only
    by_cases hat : s.toList.head? = some '@'
    · rw [if_pos hat]
      refine iff_of_false nofun (not_not_intro fun id hid => ?_)
      cases hs : s.toList with
      | nil =>
        rw [hs] at hat
        cases hat
      | cons c cs =>
        rw [hs] at hat hid
        obtain rfl := Option.some.inj hat
        rw [parseI64_of_head (by simp) (by simp) (by simp)] at hid
        cases hid
    · rw [if_neg hat]
      cases hid : Rust.parseI64 s.toList with
      | none => simp
      | some id =>
        dsimp only
        rw [number_panic]
        simp

/-- What a tag and an id are read as. -/
theorem parse_tag {what : String} {kind : PeerKind} {id : Int64} :
    (parse_id what (Json.int id.toInt).print.toList).bind (lib.make kind) = .ok (.peer kind id) ↔
      lib.inRange kind id := by
  unfold parse_id
  rw [parseI64_print]
  show lib.make kind id = _ ↔ _
  unfold PeerIds.make
  split_ifs with h
  · simp [h]
  · simp [h]

theorem append_ne_self {tag t : String} {c : Char} (h : tag.toList.head? = some c) (hc : c ≠ 's') :
    tag ++ t ≠ "self" := by
  intro heq
  have hlist := congrArg (fun s => s.toList.head?) heq
  simp only [String.toList_append] at hlist
  rw [List.head?_append_of_ne_nil _ (by intro hnil; rw [hnil] at h; cases h), h] at hlist
  exact hc (Option.some.inj hlist)

theorem roundTrips_iff (lib : PeerIds) (p : Peer) : RoundTrips lib p ↔ p.kind ≠ .chat ∧ lib.inRange p.kind p.id := by
  unfold RoundTrips
  cases p with
  | user id =>
    show parse_peer lib ("user:" ++ _) = .ok (.peer .user id) ↔ _
    unfold parse_peer
    rw [if_neg (append_ne_self (c := 'u') (by simp) (by simp)), tagged_append]
    exact parse_tag.trans (and_iff_right (show PeerKind.user ≠ .chat by simp)).symm
  | channel id =>
    show parse_peer lib ("channel:" ++ _) = .ok (.peer .channel id) ↔ _
    unfold parse_peer
    rw [if_neg (append_ne_self (c := 'c') (by simp) (by simp)), tagged_append, tagged_eq_none (by simp),
      tagged_eq_none (by simp)]
    exact parse_tag.trans (and_iff_right (show PeerKind.channel ≠ .chat by simp)).symm
  | group id =>
    refine iff_of_false ?_ fun h => h.1 rfl
    show parse_peer lib ("group:" ++ _) ≠ _
    have hnumber : Rust.parseI64 ("group:" ++ (Json.int id.toInt).print).toList = none := by
      rw [String.toList_append]
      exact parseI64_of_head (c := 'g') (by simp) (by simp) (by simp)
    unfold parse_peer
    rw [if_neg (append_ne_self (c := 'g') (by simp) (by simp)), tagged_eq_none (by simp),
      tagged_eq_none (by simp), tagged_eq_none (by simp), hnumber]
    simp

/-- Users and channels are read as they are written, and only the least number and ids out of range stop
    the parser. -/
theorem peers_iff (lib : PeerIds) :
    (∀ p, RoundTrips lib p ↔ p.kind ≠ .chat ∧ lib.inRange p.kind p.id) ∧
      ∀ s, parse_peer lib s ≠ .error .panic ↔ InRange lib s :=
  ⟨roundTrips_iff lib, fun _ => parse_peer_panic_iff.not.trans not_not⟩

/-- The group with the id 1. -/
theorem peers_not_roundTrip :
    ¬ ∀ lib : PeerIds, (∀ p, 0 < p.id → lib.inRange p.kind p.id → RoundTrips lib p) ∧
      ∀ s, parse_peer lib s ≠ .error .panic := by
  intro h
  exact ((roundTrips_iff ⟨fun _ _ => true⟩ (.group 1)).mp ((h ⟨fun _ _ => true⟩).1 (.group 1) (by decide) rfl)).1 rfl

/-! ## Messages -/

/-- The ids that a call carries. -/
def Call.ids : Call → List Int32
  | .delete_messages _ ids => ids
  | .forward_messages _ ids _ => ids
  | .read_history _ max_id => [max_id]
  | .mark_as_read _ => []

/-- The ids that a request lists, if it has any. -/
def Action.requested (params : Json) : Action → Option (List Json)
  | .delete_message | .forward_message => (params.get "message_id").map ([·])
  | .delete_messages | .forward_messages =>
    (params.get "message_ids").map fun v =>
      match v with
      | .arr items => items
      | v => [v]
  | .mark_read => (lastRead params).map ([·])

/-- A request that is not refused makes one call, with the ids it lists. -/
def Faithful (lib : PeerIds) (config : Config) (params : Json) (action : Action) (listed : List Json) : Prop :=
  ∀ calls, action.handle lib config params = .ok calls →
    ∃ call, calls = [call] ∧ call.ids.map (fun id => .int id.toInt) = listed

/-- The peers that a request names, of which one to mark may be left out. -/
def Action.peers (params : Json) : Action → Option (List String)
  | .delete_message | .delete_messages => some [optional_peer params]
  | .forward_message | .forward_messages => do
    return [← textOf params "from_peer", ← textOf params "to_peer"]
  | .mark_read => some ((textOf params "peer").map Rust.trim).toList

/-- The account takes the request: it is connected, and its peers are found. -/
def Admitted (lib : PeerIds) (config : Config) (params : Json) (action : Action) : Prop :=
  ∃ names client, action.peers params = some names ∧ connect config params = .ok client ∧
    (∀ name ∈ names, ∃ p, resolve_peer lib client name = .ok p) ∧
    (names = [] → ∃ unread, client.unread = .ok unread)

/-- The JSON integer is a positive `i32`. -/
def Sendable (v : Json) : Prop := ∃ n : Nat, v = .int n ∧ 0 < n ∧ n < 2 ^ 31

/-- The number is unsigned, and not zero when it is cast. -/
def Kept (v : Json) : Prop := ∃ n, v.asU64 = some n ∧ n % 2 ^ 32 ≠ 0

/-- What must be said of the ids of a request. One id must be sendable if it is an unsigned number. Of
    several, all must be sendable if any number is kept. To mark messages as read, the peer must be named
    and the id sendable. -/
def Exact (params : Json) (listed : List Json) : Action → Prop
  | .delete_message | .forward_message => ∀ v ∈ listed, ∀ n, v.asU64 = some n → n ≠ 0 → Sendable v
  | .delete_messages | .forward_messages =>
    ∀ items, params.get "message_ids" = some (.arr items) → (∃ v ∈ items, Kept v) → ∀ v ∈ items, Sendable v
  | .mark_read => textOf params "peer" ≠ none ∧ ∀ v ∈ listed, Sendable v

variable {config : Config} {params v : Json} {action : Action} {listed : List Json} {n : Nat} {id : Int32}

theorem asU64_eq_some : v.asU64 = some n ↔ v = .int n ∧ n < 2 ^ 64 := by
  unfold Json.asU64
  split
  · rename_i m
    rw [Json.int.injEq]
    split_ifs with h
    · rw [Option.some.injEq]
      omega
    · refine iff_of_false nofun fun hm => h ?_
      omega
  · rename_i hnot
    exact iff_of_false nofun fun h => hnot n h.1

theorem toInt_ofNat (n : Nat) :
    (Int32.ofNat n).toInt = if n % 2 ^ 32 < 2 ^ 31 then ((n % 2 ^ 32 : Nat) : Int) else (n % 2 ^ 32 : Nat) - 2 ^ 32 := by
  rw [Int32.toInt_ofNat', Int.bmod_def, show Int32.size = 4294967296 from rfl]
  split_ifs <;> omega

theorem ofNat_ne_zero_iff : Int32.ofNat n ≠ 0 ↔ n % 2 ^ 32 ≠ 0 := by
  rw [Ne, ← Int32.toInt_inj, Int32.toInt_zero, toInt_ofNat]
  split_ifs <;> omega

theorem toInt_ofNat_iff : (Int32.ofNat n).toInt = n ↔ n < 2 ^ 31 := by
  rw [toInt_ofNat]
  split_ifs <;> omega

/-- What an element of a list is sent as. -/
def sentAs (v : Json) : Option Int32 := (v.asU64.map Int32.ofNat).filter fun id => id ≠ 0

theorem sentAs_eq_some : sentAs v = some id ↔ ∃ n, v.asU64 = some n ∧ Int32.ofNat n = id ∧ id ≠ 0 := by
  unfold sentAs
  cases hv : v.asU64 with
  | none => simp
  | some n =>
    rw [Option.map_some, Option.filter_eq_some_iff]
    simp

theorem sentAs_eq_iff : (sentAs v).map (fun id => Json.int id.toInt) = some v ↔ Sendable v := by
  rw [Option.map_eq_some_iff]
  constructor
  · rintro ⟨id, hid, hv⟩
    obtain ⟨n, hn, rfl, hne⟩ := sentAs_eq_some.1 hid
    obtain ⟨rfl, -⟩ := asU64_eq_some.mp hn
    have hlt := toInt_ofNat_iff.1 (Json.int.inj hv)
    have hmod := ofNat_ne_zero_iff.mp hne
    exact ⟨n, rfl, by omega, hlt⟩
  · rintro ⟨n, rfl, hpos, hlt⟩
    refine ⟨Int32.ofNat n, ?_, congrArg Json.int (toInt_ofNat_iff.2 hlt)⟩
    exact sentAs_eq_some.2 ⟨n, asU64_eq_some.mpr ⟨rfl, by omega⟩, rfl, ofNat_ne_zero_iff.mpr (by omega)⟩

theorem sentAs_ne_none_iff : sentAs v ≠ none ↔ Kept v := by
  rw [Option.ne_none_iff_exists']
  constructor
  · rintro ⟨id, hid⟩
    obtain ⟨n, hn, rfl, hne⟩ := sentAs_eq_some.1 hid
    exact ⟨n, hn, ofNat_ne_zero_iff.mp hne⟩
  · rintro ⟨n, hn, hne⟩
    exact ⟨_, sentAs_eq_some.2 ⟨n, hn, rfl, ofNat_ne_zero_iff.mpr hne⟩⟩

/-- A list is kept as it is where each element is. -/
theorem map_filterMap_eq_self_iff {α β : Type*} {g : α → Option β} {f : β → α} {l : List α} :
    (l.filterMap g).map f = l ↔ ∀ a ∈ l, (g a).map f = some a := by
  induction l with
  | nil => simp
  | cons a l ih =>
    rw [List.forall_mem_cons, ← ih]
    cases hg : g a with
    | none =>
      rw [List.filterMap_cons_none hg]
      refine iff_of_false (fun heq => ?_) fun h => nomatch h.1
      have hle := List.length_filterMap_le g l
      have hlength := congrArg List.length heq
      rw [List.length_map, List.length_cons] at hlength
      omega
    | some b =>
      rw [List.filterMap_cons_some hg, List.map_cons, List.cons.injEq, Option.map_some, Option.some.injEq]

/-- The ids of a list that are sent. -/
theorem message_ids_eq_ok {name : String} {ids : List Int32} :
    message_ids name params = .ok ids ↔
      ∃ items, params.get "message_ids" = some (.arr items) ∧ items.filterMap sentAs = ids ∧ ids ≠ [] := by
  unfold message_ids
  split
  · rename_i items hitems
    rw [List.filter_filterMap]
    dsimp only
    show (if items.filterMap sentAs = [] then _ else _) = _ ↔ _
    split_ifs with hnil
    · refine iff_of_false nofun ?_
      rintro ⟨items', hitems', rfl, hne⟩
      rw [hitems] at hitems'
      cases hitems'
      exact hne hnil
    · constructor
      · intro h
        obtain rfl := Except.ok.inj h
        exact ⟨items, hitems, rfl, hnil⟩
      · rintro ⟨items', hitems', rfl, -⟩
        rw [hitems] at hitems'
        cases hitems'
        rfl
  · rename_i hnot
    refine iff_of_false nofun ?_
    rintro ⟨items, hitems, -⟩
    exact hnot items hitems

theorem message_id_eq_ok {name : String} :
    message_id name params = .ok n ↔ ∃ v, params.get "message_id" = some v ∧ v.asU64 = some n ∧ n ≠ 0 := by
  unfold message_id
  cases hv : params.get "message_id" with
  | none => simp
  | some v =>
    rw [Option.bind_some]
    cases hn : v.asU64 with
    | none => simp [hn]
    | some m =>
      by_cases hzero : m = 0
      · simp [hn, hzero, Option.filter]
        rintro rfl
        rfl
      · simp [hn, hzero, Option.filter]
        rintro rfl
        exact hzero

/-- Once it is admitted, a request makes one call with the ids that it reads. -/
structure Sends (lib : PeerIds) (config : Config) (params : Json) (action : Action)
    (read : Handled (List Int32)) : Prop where
  calls : ∀ calls, action.handle lib config params = .ok calls →
    Admitted lib config params action ∧ ∃ call, calls = [call] ∧ read = .ok call.ids
  admitted : Admitted lib config params action → ∀ ids, read = .ok ids →
    ∃ call, action.handle lib config params = .ok [call] ∧ call.ids = ids

theorem Sends.faithful_iff {read : Handled (List Int32)} (h : Sends lib config params action read) :
    Faithful lib config params action listed ↔ (Admitted lib config params action →
      ∀ ids, read = .ok ids → ids.map (fun id => Json.int id.toInt) = listed) := by
  constructor
  · intro hfaithful hadmitted ids hread
    obtain ⟨call, hcall, rfl⟩ := h.admitted hadmitted ids hread
    obtain ⟨call', heq, hids⟩ := hfaithful _ hcall
    obtain rfl := List.singleton_inj.mp heq
    exact hids
  · intro hall calls hcalls
    obtain ⟨hadmitted, call, rfl, hread⟩ := h.calls calls hcalls
    exact ⟨call, rfl, hall hadmitted _ hread⟩

/-! ### Deletions -/

/-- What the two deletions have in common. -/
def deleting (lib : PeerIds) (config : Config) (params : Json) (read : Handled (List Int32)) :
    Handled (List Call) := do
  let ids ← read
  let client ← connect config params
  let peer ← resolve_peer lib client (optional_peer params)
  return [.delete_messages peer ids]

theorem deleting_sends {read : Handled (List Int32)}
    (hhandle : action.handle lib config params = deleting lib config params read)
    (hpeers : action.peers params = some [optional_peer params]) : Sends lib config params action read := by
  constructor
  · intro calls hcalls
    rw [hhandle] at hcalls
    unfold deleting at hcalls
    obtain ⟨ids, hids, hcalls⟩ := Rust.bind_eq_ok.mp hcalls
    obtain ⟨client, hclient, hcalls⟩ := Rust.bind_eq_ok.mp hcalls
    obtain ⟨peer, hpeer, hcalls⟩ := Rust.bind_eq_ok.mp hcalls
    obtain rfl := Except.ok.inj hcalls
    refine ⟨⟨_, client, hpeers, hclient, ?_, by simp⟩, _, rfl, hids⟩
    intro name hname
    obtain rfl := List.mem_singleton.mp hname
    exact ⟨peer, hpeer⟩
  · rintro ⟨names, client, hnames, hclient, hresolve, -⟩ ids hids
    obtain rfl := Option.some.inj (hpeers.symm.trans hnames)
    obtain ⟨peer, hpeer⟩ := hresolve _ (List.mem_singleton_self _)
    refine ⟨.delete_messages peer ids, ?_, rfl⟩
    rw [hhandle]
    unfold deleting
    rw [hids, hclient]
    show (resolve_peer lib client _ >>= _) = _
    rw [hpeer]
    rfl

/-! ### Forwards -/

def forwarding (lib : PeerIds) (config : Config) (params : Json) (name : String)
    (read : Handled (List Int32)) : Handled (List Call) := do
  let from_peer_str ← required_str params "from_peer" name
  let to_peer_str ← required_str params "to_peer" name
  let ids ← read
  let client ← connect config params
  let from_peer ← resolve_peer lib client from_peer_str
  let to_peer ← resolve_peer lib client to_peer_str
  return [.forward_messages to_peer ids from_peer]

theorem required_str_eq_ok {key name t : String} :
    required_str params key name = .ok t ↔ textOf params key = some t := by
  unfold required_str
  cases textOf params key with
  | none => simp
  | some t' => simp

theorem forwarding_sends {read : Handled (List Int32)} (name : String)
    (hhandle : action.handle lib config params = forwarding lib config params name read)
    (hpeers : action.peers params =
      (textOf params "from_peer").bind fun a => (textOf params "to_peer").bind fun b => some [a, b]) :
    Sends lib config params action read := by
  constructor
  · intro calls hcalls
    rw [hhandle] at hcalls
    unfold forwarding at hcalls
    obtain ⟨source, hsource, hcalls⟩ := Rust.bind_eq_ok.mp hcalls
    obtain ⟨target, htarget, hcalls⟩ := Rust.bind_eq_ok.mp hcalls
    obtain ⟨ids, hids, hcalls⟩ := Rust.bind_eq_ok.mp hcalls
    obtain ⟨client, hclient, hcalls⟩ := Rust.bind_eq_ok.mp hcalls
    obtain ⟨from_peer, hfrom, hcalls⟩ := Rust.bind_eq_ok.mp hcalls
    obtain ⟨to_peer, hto, hcalls⟩ := Rust.bind_eq_ok.mp hcalls
    obtain rfl := Except.ok.inj hcalls
    rw [required_str_eq_ok] at hsource htarget
    refine ⟨⟨[source, target], client, ?_, hclient, ?_, by simp⟩, _, rfl, hids⟩
    · rw [hpeers, hsource, htarget]
      rfl
    · intro name hname
      rcases List.mem_cons.mp hname with rfl | hname
      · exact ⟨from_peer, hfrom⟩
      · obtain rfl := List.mem_singleton.mp hname
        exact ⟨to_peer, hto⟩
  · rintro ⟨names, client, hnames, hclient, hresolve, -⟩ ids hids
    rw [hpeers] at hnames
    obtain ⟨source, hsource, hnames⟩ := Option.bind_eq_some_iff.mp hnames
    obtain ⟨target, htarget, hnames⟩ := Option.bind_eq_some_iff.mp hnames
    obtain rfl := Option.some.inj hnames
    obtain ⟨from_peer, hfrom⟩ := hresolve source List.mem_cons_self
    obtain ⟨to_peer, hto⟩ := hresolve target (List.mem_cons_of_mem _ List.mem_cons_self)
    refine ⟨.forward_messages to_peer ids from_peer, ?_, rfl⟩
    rw [hhandle]
    unfold forwarding
    rw [required_str_eq_ok.mpr hsource, required_str_eq_ok.mpr htarget, hids, hclient]
    show (resolve_peer lib client source >>= _) = _
    rw [hfrom]
    show (resolve_peer lib client target >>= _) = _
    rw [hto]
    rfl

/-! ### What is read -/

/-- The one id, as it is sent. -/
def readOne (name : String) (params : Json) : Handled (List Int32) :=
  (message_id name params).map fun n => [Int32.ofNat n]

theorem readOne_iff {name : String} (hv : params.get "message_id" = some v) :
    (∀ ids, readOne name params = .ok ids → ids.map (fun id => Json.int id.toInt) = [v]) ↔
      ∀ n, v.asU64 = some n → n ≠ 0 → Sendable v := by
  constructor
  · intro h n hn hne
    have hread : readOne name params = .ok [Int32.ofNat n] :=
      Rust.map_eq_ok.mpr ⟨n, message_id_eq_ok.mpr ⟨v, hv, hn, hne⟩, rfl⟩
    obtain ⟨rfl, -⟩ := asU64_eq_some.mp hn
    have hint := List.singleton_inj.mp (h _ hread)
    exact ⟨n, rfl, by omega, toInt_ofNat_iff.1 (Json.int.inj hint)⟩
  · intro h ids hread
    obtain ⟨n, hn, rfl⟩ := Rust.map_eq_ok.mp hread
    obtain ⟨v', hv', hsome, hne⟩ := message_id_eq_ok.mp hn
    obtain rfl := Option.some.inj (hv.symm.trans hv')
    obtain ⟨m, rfl, -, hlt⟩ := h n hsome hne
    obtain ⟨hint, -⟩ := asU64_eq_some.mp hsome
    rw [Json.int.injEq] at hint
    rw [List.map_singleton, toInt_ofNat_iff.2 (by omega), hint]

theorem filterMap_sentAs_ne_nil {items : List Json} : items.filterMap sentAs ≠ [] ↔ ∃ v ∈ items, Kept v := by
  rw [Ne, List.filterMap_eq_nil_iff]
  push Not
  exact exists_congr fun v => and_congr_right fun _ => sentAs_ne_none_iff

theorem readAll_iff {name : String} (h : Action.delete_messages.requested params = some listed) :
    (∀ ids, message_ids name params = .ok ids → ids.map (fun id => Json.int id.toInt) = listed) ↔
      Exact params listed .delete_messages := by
  constructor
  · intro hall items hitems hkept
    have hlisted : items = listed := by
      simpa [Action.requested, hitems] using h
    have hids := hall _ (message_ids_eq_ok.mpr ⟨items, hitems, rfl, filterMap_sentAs_ne_nil.mpr hkept⟩)
    rw [← hlisted, map_filterMap_eq_self_iff] at hids
    exact fun v hv => sentAs_eq_iff.mp (hids v hv)
  · intro hexact ids hids
    obtain ⟨items, hitems, rfl, hne⟩ := message_ids_eq_ok.mp hids
    have hlisted : items = listed := by
      simpa [Action.requested, hitems] using h
    have hall := hexact items hitems (filterMap_sentAs_ne_nil.mp hne)
    rw [← hlisted, map_filterMap_eq_self_iff]
    exact fun v hv => sentAs_eq_iff.mpr (hall v hv)

theorem getD_sentAs (v : Json) : (v.asU64.map Int32.ofNat).getD 0 = (sentAs v).getD 0 := by
  unfold sentAs
  cases v.asU64.map Int32.ofNat with
  | none => rfl
  | some id =>
    by_cases hzero : id = 0
    · simp [hzero, Option.filter]
    · simp [hzero, Option.filter]

/-- The id that messages are marked up to. -/
theorem readHistory_ids (v : Json) (p : PeerId) :
    (if (sentAs v).getD 0 ≠ 0 then Call.read_history p ((sentAs v).getD 0) else .mark_as_read p).ids =
      (sentAs v).toList := by
  cases hid : sentAs v with
  | none => rfl
  | some id =>
    obtain ⟨-, -, -, hne⟩ := sentAs_eq_some.1 hid
    rw [Option.getD_some, if_pos hne]
    rfl

theorem mark_read_iff (hv : lastRead params = some v) :
    Faithful lib config params .mark_read [v] ↔
      (Admitted lib config params .mark_read → Exact params [v] .mark_read) := by
  have hmax : (((lastRead params).bind Json.asU64).map Int32.ofNat).getD 0 = (sentAs v).getD 0 := by
    rw [hv]
    exact getD_sentAs v
  cases hpeer : textOf params "peer" with
  | none =>
    constructor
    · rintro hfaithful ⟨names, client, hnames, hclient, -, hunread⟩
      have hnil : names = [] := by simpa [Action.peers, hpeer] using hnames.symm
      obtain ⟨unread, hunread⟩ := hunread hnil
      have hcalls : Action.mark_read.handle lib config params = .ok (unread.map .mark_as_read) := by
        show handle_mark_read lib config params = _
        unfold handle_mark_read
        rw [hpeer, hclient]
        show (client.unread.mapError Fail.error >>= _) = _
        rw [hunread]
        rfl
      obtain ⟨call, heq, hids⟩ := hfaithful _ hcalls
      obtain ⟨p, rfl⟩ : ∃ p, call = .mark_as_read p := by
        cases unread with
        | nil => cases heq
        | cons p unread => exact ⟨p, (List.cons.inj heq).1.symm⟩
      cases hids
    · intro hexact calls hcalls
      have hadmitted : Admitted lib config params .mark_read := by
        change handle_mark_read lib config params = _ at hcalls
        unfold handle_mark_read at hcalls
        rw [hpeer] at hcalls
        obtain ⟨client, hclient, hcalls⟩ := Rust.bind_eq_ok.mp hcalls
        obtain ⟨unread, hunread, -⟩ := Rust.bind_eq_ok.mp hcalls
        refine ⟨[], client, by simp [Action.peers, hpeer], hclient, by simp, fun _ => ?_⟩
        cases hu : client.unread with
        | error e =>
          rw [hu] at hunread
          cases hunread
        | ok unread => exact ⟨unread, rfl⟩
      exact absurd hpeer (hexact hadmitted).1
  | some name =>
    have hexact : Exact params [v] .mark_read ↔ Sendable v := by
      simp [Exact, hpeer]
    have hcall : ∀ p : PeerId, ((if (sentAs v).getD 0 ≠ 0 then Call.read_history p ((sentAs v).getD 0)
        else .mark_as_read p).ids.map fun id => Json.int id.toInt) = [v] ↔ Sendable v := by
      intro p
      rw [readHistory_ids, ← sentAs_eq_iff]
      cases sentAs v with
      | none => simp
      | some id => simp
    have hhandle : ∀ calls, Action.mark_read.handle lib config params = .ok calls ↔
        ∃ client p, connect config params = .ok client ∧ resolve_peer lib client (Rust.trim name) = .ok p ∧
          [if (sentAs v).getD 0 ≠ 0 then Call.read_history p ((sentAs v).getD 0) else .mark_as_read p] = calls := by
      intro calls
      show handle_mark_read lib config params = _ ↔ _
      unfold handle_mark_read
      rw [hpeer, hmax, Rust.bind_eq_ok]
      refine exists_congr fun client => ?_
      rw [exists_and_left]
      refine and_congr_right fun _ => ?_
      show (resolve_peer lib client (Rust.trim name) >>= _) = _ ↔ _
      rw [Rust.bind_eq_ok]
      exact exists_congr fun p => and_congr_right fun _ => ⟨Except.ok.inj, congrArg Except.ok⟩
    rw [hexact]
    constructor
    · rintro hfaithful ⟨names, client, hnames, hclient, hresolve, -⟩
      obtain rfl : names = [Rust.trim name] := by simpa [Action.peers, hpeer] using hnames.symm
      obtain ⟨p, hp⟩ := hresolve _ (List.mem_singleton_self _)
      obtain ⟨call, heq, hids⟩ := hfaithful _ ((hhandle _).mpr ⟨client, p, hclient, hp, rfl⟩)
      obtain rfl := List.singleton_inj.mp heq
      exact (hcall p).mp hids
    · intro hsendable calls hcalls
      obtain ⟨client, p, hclient, hp, rfl⟩ := (hhandle calls).mp hcalls
      refine ⟨_, rfl, (hcall p).mpr (hsendable ⟨[Rust.trim name], client, ?_, hclient, ?_, by simp⟩)⟩
      · simp [Action.peers, hpeer]
      · intro name' hname
        obtain rfl := List.mem_singleton.mp hname
        exact ⟨p, hp⟩

/-- A request that lists ids reaches Telegram with these ids, or is refused, where they are sendable. -/
theorem messages_faithful_iff (lib : PeerIds) (config : Config) (params : Json) (action : Action) (listed : List Json)
    (hlisted : action.requested params = some listed) :
    Faithful lib config params action listed ↔
      (Admitted lib config params action → Exact params listed action) := by
  cases action with
  | delete_message =>
    obtain ⟨v, hv, rfl⟩ := Option.map_eq_some_iff.mp hlisted
    have hsends : Sends lib config params .delete_message (readOne "tg_delete_message" params) := by
      refine deleting_sends ?_ rfl
      show handle_delete_message lib config params = _
      unfold handle_delete_message deleting readOne
      cases message_id "tg_delete_message" params <;> rfl
    rw [hsends.faithful_iff, readOne_iff hv]
    simp [Exact]
  | forward_message =>
    obtain ⟨v, hv, rfl⟩ := Option.map_eq_some_iff.mp hlisted
    have hsends : Sends lib config params .forward_message (readOne "tg_forward_message" params) := by
      refine forwarding_sends "tg_forward_message" ?_ rfl
      show handle_forward_message lib config params = _
      unfold handle_forward_message forwarding readOne
      cases message_id "tg_forward_message" params <;> rfl
    rw [hsends.faithful_iff, readOne_iff hv]
    simp [Exact]
  | delete_messages =>
    have hsends : Sends lib config params .delete_messages (message_ids "tg_delete_messages" params) :=
      deleting_sends rfl rfl
    rw [hsends.faithful_iff, readAll_iff hlisted]
  | forward_messages =>
    have hsends : Sends lib config params .forward_messages (message_ids "tg_forward_messages" params) :=
      forwarding_sends "tg_forward_messages" rfl rfl
    rw [hsends.faithful_iff, readAll_iff hlisted]
    rfl
  | mark_read =>
    obtain ⟨v, hv, rfl⟩ := Option.map_eq_some_iff.mp hlisted
    exact mark_read_iff hv

/-- An account that is connected, with no dialogs. -/
def connected : Config where
  default_account := "main"
  check_antiban _ := .ok ()
  get_client _ := .ok { resolve_username := fun _ => .ok none, unread := .ok [] }

/-- The second element is no number. -/
theorem messages_faithful_iff_mixed :
    Faithful ⟨fun _ _ => true⟩ connected (.obj [("message_ids", .arr [.int 4, .str "5"])]) .delete_messages
        [.int 4, .str "5"] ↔
      (Admitted ⟨fun _ _ => true⟩ connected (.obj [("message_ids", .arr [.int 4, .str "5"])]) .delete_messages →
        Exact (.obj [("message_ids", .arr [.int 4, .str "5"])]) [.int 4, .str "5"] .delete_messages) :=
  messages_faithful_iff _ _ _ _ _ rfl

/-- The id `2 ^ 32 + 7` is sent as `7`. -/
theorem messages_not_faithful :
    ¬ ∀ (lib : PeerIds) (config : Config) (params : Json) (action : Action) (listed : List Json),
      action.requested params = some listed → Faithful lib config params action listed := by
  intro h
  have hfaithful := h ⟨fun _ _ => true⟩ connected (.obj [("message_id", .int 4294967303)]) .delete_message
    [.int 4294967303] rfl
  have hcalls : Action.delete_message.handle ⟨fun _ _ => true⟩ connected
      (.obj [("message_id", .int 4294967303)]) = .ok [.delete_messages .self_user [7]] := by
    rfl
  obtain ⟨call, heq, hids⟩ := hfaithful _ hcalls
  obtain rfl := List.singleton_inj.mp heq
  have hint := Json.int.inj (List.singleton_inj.mp hids)
  exact absurd hint (by decide)

end Telegram
