import HotReload.Proofs.ReaderSteps

namespace HotReload.Json

variable {α β σ δ : Type} {n : Nat} {s rest : List Char} {good : α → Prop}

def Ensures (read : Reader α) (good : α → Prop) : Prop :=
  ∀ ⦃s rest : List Char⦄ ⦃a : α⦄, Yields (read s) a rest → good a

theorem Ensures.map {read : Reader α} {fine : β → Prop} {f : α → β} (ensures : Ensures read good)
    (keeps : ∀ a, good a → fine (f a)) : Ensures (fun s => (read s).map (Parsed.map f)) fine := by
  intro s rest b mapped
  obtain ⟨a, taken, rfl⟩ := yields_map_iff.mp mapped
  exact keeps a (ensures taken)

theorem Ensures.optional {read : Reader α} (ensures : Ensures read good) :
    Ensures (readOptional read) fun v => ∀ a ∈ v, good a := by
  intro s rest v taken a given
  rcases yields_readOptional_iff.mp taken with ⟨_, _, _, rfl⟩ | ⟨_, b, present, rfl⟩
  · cases given
  · cases given
    exact ensures present

theorem readItems_ensures {item : Reader α} (ensures : Ensures item good) {first : Bool}
    {done as : List α} {bound : s.length ≤ n} (before : ∀ a ∈ done, good a)
    (taken : Yields (readItems item first done s bound) as rest) : ∀ a ∈ as, good a := by
  fun_induction readItems item first done s bound with
  | case2 =>
    obtain ⟨rfl, _⟩ := yields_ok_iff.mp taken
    intro a member
    exact before a (List.mem_reverse.mp member)
  | case4 _ _ _ _ _ _ _ _ p read _ ih =>
    refine ih ?_ taken
    exact List.forall_mem_cons.mpr ⟨ensures (read ▸ yields_ok p), before⟩
  | case7 _ _ _ _ _ _ _ p read _ _ _ _ ih =>
    refine ih ?_ taken
    exact List.forall_mem_cons.mpr ⟨ensures (read ▸ yields_ok p), before⟩
  | _ => exact (not_yields_error taken).elim

theorem Ensures.list {item : Reader α} (ensures : Ensures item good) :
    Ensures (readList item) fun as => ∀ a ∈ as, good a := by
  intro s rest as taken
  obtain ⟨r, _, _, items⟩ := yields_readList_iff.mp taken
  exact readItems_ensures ensures (fun a member => by cases member) items

theorem readMembers_keeps {member : σ → String → Except Fault (Reader σ)} (keep : σ → Prop)
    (keeps : ∀ {state name read}, member state name = .ok read → keep state → Ensures read keep)
    {first : Bool} {state after : σ} {bound : s.length ≤ n} (start : keep state)
    (taken : Yields (readMembers member first state s bound) after rest) : keep after := by
  fun_induction readMembers member first state s bound with
  | case2 =>
    obtain ⟨rfl, _⟩ := yields_ok_iff.mp taken
    exact start
  | case11 _ _ _ _ _ _ _ _ _ _ _ _ _ _ _ _ _ _ read known _ _ _ _ _ p value _ ih =>
    exact ih (keeps known start (value ▸ yields_ok p)) taken
  | _ => exact (not_yields_error taken).elim

section Records

variable {record : Record δ α} {keep : δ → Prop} {fields : List (Field δ)}

theorem readElements_keeps (keeps : ∀ f ∈ fields, ∀ draft, keep draft → Ensures (f.read draft) keep)
    {first : Bool} {draft after : δ} {bound : s.length ≤ n} (start : keep draft)
    (taken : Yields (Record.readElements first draft fields s bound) after rest) : keep after := by
  fun_induction Record.readElements first draft fields s bound with
  | case2 =>
    obtain ⟨rfl, _⟩ := yields_ok_iff.mp taken
    exact start
  | case5 draft _ _ _ _ _ _ _ f fs p read ih =>
    have next := keeps f List.mem_cons_self draft start (read ▸ yields_ok p)
    exact ih (fun g listed => keeps g (List.mem_cons_of_mem f listed)) next taken
  | case8 _ draft _ _ _ f fs _ _ p read _ _ _ ih =>
    have next := keeps f List.mem_cons_self draft start (read ▸ yields_ok p)
    exact ih (fun g listed => keeps g (List.mem_cons_of_mem f listed)) next taken
  | _ => exact (not_yields_error taken).elim

theorem member_keeps
    (keeps : ∀ f ∈ record.fields, ∀ draft, keep draft → Ensures (f.read draft) keep)
    {state : δ × List String} {name : String} {read : Reader (δ × List String)}
    (known : record.member state name = .ok read) (start : keep state.1) :
    Ensures read fun state => keep state.1 := by
  unfold Record.member at known
  split at known
  · cases known
    intro s rest after taken
    obtain ⟨_, _, rfl⟩ := yields_map_iff.mp taken
    exact start
  · rename_i f found
    split at known
    · cases known
    · cases known
      exact (keeps f (List.mem_of_find?_eq_some found) state.1 start).map fun _ kept => kept

theorem ensures_record (keep : δ → Prop)
    (keeps : ∀ f ∈ record.fields, ∀ draft, keep draft → Ensures (f.read draft) keep)
    (start : keep record.blank)
    (complete : ∀ draft a, keep draft → record.finish draft = some a → good a) :
    Ensures record.read good := by
  intro s rest a taken
  obtain ⟨r, _, ⟨_, state, members, finished⟩ | ⟨_, draft, elements, finished⟩⟩ :=
    yields_record_iff.mp taken
  · have kept := readMembers_keeps (fun state => keep state.1) (member_keeps keeps) start members
    exact complete state.1 a kept finished
  · exact complete draft a (readElements_keeps keeps start elements) finished

end Records

end HotReload.Json
