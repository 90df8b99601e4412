import CalvinConstrained.Runtime.Lookup

namespace CalvinConstrained

/-- `jsmntype_t`. -/
inductive JsonType
  | undefined | object | array | string | primitive
  deriving DecidableEq

/-- `jsmntok_t`: the place of a value in the text, and the number of its children. -/
structure JsonToken where
  type : JsonType
  start : Nat
  stop : Nat
  size : Nat
  deriving DecidableEq

namespace Json

mutual

/-- `cc_json_skip`: the number of tokens of a value. Behind the array of tokens it is undefined. -/
def skip : List JsonToken → Option Nat
  | [] => none
  | t::rest =>
      match t.type with
      | .primitive => some 1
      | .string => some 1
      | .object => (skipPairs t.size rest 0).map (· + 1)
      | .array => (skipItems t.size rest 0).map (· + 1)
      | .undefined => some 0
termination_by tokens => (2*tokens.length,0)

def skipPairs : Nat → List JsonToken → Nat → Option Nat
  | 0,_,j => some j
  | n+1,tokens,j =>
      (skip (tokens.drop j)).bind fun k =>
        (skip (tokens.drop (j+k))).bind fun m => skipPairs n tokens (j+k+m)
termination_by n tokens => (2*tokens.length+1,n)

def skipItems : Nat → List JsonToken → Nat → Option Nat
  | 0,_,j => some j
  | n+1,tokens,j => (skip (tokens.drop j)).bind fun k => skipItems n tokens (j+k)
termination_by n tokens => (2*tokens.length+1,n)

end

/-- The loop of `cc_json_get_dict_value`. -/
def dictLoop (buffer : Bytes) (tokens : List JsonToken) (object : Nat) (key : Text) :
    Nat → Nat → Option (Option Nat)
  | 0,_ => some none
  | n+1,j => do
      let k ← tokens[object+j]?
      if k.type=.string ∧ k.start+key.len=k.stop ∧
          strncmpEq (buffer.drop k.start) key.ptr key.len then
        return some (object+j+1)
      let m ← skip (tokens.drop (object+j+1))
      dictLoop buffer tokens object key n (j+1+m)

/-- `cc_json_get_dict_value`: the place of the value among the tokens. -/
def getDictValue (buffer : Bytes) (tokens : List JsonToken) (object : Nat) (key : Text) :
    Option (Option Nat) := do
  let t ← tokens[object]?
  if t.type ≠ .object then return none
  dictLoop buffer tokens object key t.size 1

/-- `CC_MAX_ATTRIBUTES_LEN`. -/
def maxAttributesLen : Nat := 1024

/-- `cc_calvinsys_attribute_get_attribute_value`: the text of the attribute, or `none` for
`CC_FAIL`. `jsmn` is the parser, which gets room for a number of tokens. -/
def getAttributeValue (jsmn : Bytes → Nat → Option (List JsonToken)) (attributes : Bytes)
    (name : Text) : Option (Option Bytes) := do
  let pos := name.content.findIdx (· = 46)
  if name.content.length ≤ pos then return none
  let category : Text := ⟨name.ptr,pos⟩
  let item : Text := ⟨name.ptr.drop (pos+1),name.len-(pos+1)⟩
  let some tokens := jsmn (attributes.take (strnlen attributes maxAttributesLen)) 40 | return none
  let some t ← getDictValue attributes tokens 0 (.ofString (ascii "indexed_public")) | return none
  let some t ← getDictValue attributes tokens t category | return none
  let some t ← getDictValue attributes tokens t item | return none
  let token ← tokens[t]?
  return some ((attributes.drop token.start).take (token.stop-token.start))

end Json

/-- The place of a text in a document, and what the parser put into the size of its token. -/
structure JsonSpan where
  start : Nat
  stop : Nat
  size : Nat

/-- A JSON document, as the places of its values. -/
inductive JsonTree
  | primitive (span : JsonSpan)
  | string (span : JsonSpan)
  | object (start stop : Nat) (pairs : List (JsonSpan × JsonTree))
  | array (start stop : Nat) (items : List JsonTree)

namespace JsonSpan

def token (span : JsonSpan) (type : JsonType) : JsonToken := ⟨type,span.start,span.stop,span.size⟩

/-- The text of a token. -/
def text (doc : Bytes) (span : JsonSpan) : Bytes := (doc.drop span.start).take (span.stop-span.start)

/-- The text lies in the document. -/
def Inside (doc : Bytes) (span : JsonSpan) : Prop := span.start ≤ span.stop ∧ span.stop ≤ doc.length

end JsonSpan

namespace JsonTree

mutual

/-- The tokens of a document: each value before its children, a key before its value. -/
def flatten : JsonTree → List JsonToken
  | .primitive span => [span.token .primitive]
  | .string span => [span.token .string]
  | .object start stop pairs => ⟨.object,start,stop,pairs.length⟩::flattenPairs pairs
  | .array start stop items => ⟨.array,start,stop,items.length⟩::flattenItems items

def flattenPairs : List (JsonSpan × JsonTree) → List JsonToken
  | [] => []
  | (key,value)::pairs => key.token .string::(flatten value++flattenPairs pairs)

def flattenItems : List JsonTree → List JsonToken
  | [] => []
  | value::items => flatten value++flattenItems items

end

mutual

/-- All texts lie in the document. -/
def Inside (doc : Bytes) : JsonTree → Prop
  | .primitive span => span.Inside doc
  | .string span => span.Inside doc
  | .object start stop pairs => (start ≤ stop ∧ stop ≤ doc.length) ∧ PairsInside doc pairs
  | .array start stop items => (start ≤ stop ∧ stop ≤ doc.length) ∧ ItemsInside doc items

def PairsInside (doc : Bytes) : List (JsonSpan × JsonTree) → Prop
  | [] => True
  | (key,value)::pairs => key.Inside doc ∧ Inside doc value ∧ PairsInside doc pairs

def ItemsInside (doc : Bytes) : List JsonTree → Prop
  | [] => True
  | value::items => Inside doc value ∧ ItemsInside doc items

end

/-- The first token of a document. -/
def head : JsonTree → JsonToken
  | .primitive span => span.token .primitive
  | .string span => span.token .string
  | .object start stop pairs => ⟨.object,start,stop,pairs.length⟩
  | .array start stop items => ⟨.array,start,stop,items.length⟩

/-- The text of a value. -/
def text (doc : Bytes) (value : JsonTree) : Bytes :=
  (doc.drop value.head.start).take (value.head.stop-value.head.start)

/-- The value of the first pair that has the key. -/
def member (doc : Bytes) (key : Bytes) : JsonTree → Option JsonTree
  | .object _ _ pairs => (pairs.find? fun p => p.1.text doc=key).map Prod.snd
  | _ => none

/-- The tokens of the value stand at a place of the array. -/
def At (tokens : List JsonToken) (i : Nat) (value : JsonTree) : Prop := flatten value <+: tokens.drop i

/-- The value of the first pair that has the key, with the place of its tokens when those of the
pairs start at `i`. -/
def locate (doc : Bytes) (key : Bytes) : Nat → List (JsonSpan × JsonTree) → Option (Nat × JsonTree)
  | _,[] => none
  | i,(k,value)::pairs =>
      if k.text doc=key then some (i+1,value)
      else locate doc key (i+1+(flatten value).length) pairs

section Skip

open Json

mutual

/-- The tokens of a value are skipped as a whole. -/
theorem skip_flatten (value : JsonTree) (rest : List JsonToken) :
    skip (flatten value++rest)=some (flatten value).length := by
  cases value with
  | primitive span => simp [flatten,skip,JsonSpan.token]
  | string span => simp [flatten,skip,JsonSpan.token]
  | object start stop pairs =>
    have hpairs := skipPairs_flatten pairs [] rest
    simp only [List.nil_append,List.length_nil,Nat.zero_add] at hpairs
    simp [flatten,skip,hpairs]
  | array start stop items =>
    have hitems := skipItems_flatten items [] rest
    simp only [List.nil_append,List.length_nil,Nat.zero_add] at hitems
    simp [flatten,skip,hitems]

theorem skipPairs_flatten (pairs : List (JsonSpan × JsonTree)) (done rest : List JsonToken) :
    skipPairs pairs.length (done++(flattenPairs pairs++rest)) done.length=
      some (done.length+(flattenPairs pairs).length) := by
  cases pairs with
  | nil => simp [flattenPairs,skipPairs]
  | cons p pairs =>
    obtain ⟨key,value⟩ := p
    have hkey : skip (key.token .string::(flatten value++flattenPairs pairs++rest))=some 1 := by
      simp [skip,JsonSpan.token]
    have hvalue := skip_flatten value (flattenPairs pairs++rest)
    have hpairs := skipPairs_flatten pairs (done++key.token .string::flatten value) rest
    rw [List.length_cons,skipPairs,List.drop_left]
    simp only [flattenPairs,List.cons_append,hkey,Option.bind_some]
    have hdrop : (done++key.token .string::(flatten value++flattenPairs pairs++rest)).drop
        (done.length+1)=flatten value++(flattenPairs pairs++rest) := by
      simp [List.drop_append]
    rw [hdrop,hvalue,Option.bind_some]
    simpa [Nat.add_assoc,Nat.add_comm,Nat.add_left_comm] using hpairs

theorem skipItems_flatten (items : List JsonTree) (done rest : List JsonToken) :
    skipItems items.length (done++(flattenItems items++rest)) done.length=
      some (done.length+(flattenItems items).length) := by
  cases items with
  | nil => simp [flattenItems,skipItems]
  | cons value items =>
    have hvalue := skip_flatten value (flattenItems items++rest)
    have hitems := skipItems_flatten items (done++flatten value) rest
    rw [List.length_cons,skipItems,List.drop_left]
    simp only [flattenItems,List.append_assoc]
    rw [hvalue,Option.bind_some]
    simpa [Nat.add_assoc,List.append_assoc] using hitems

end

end Skip

section Lookup

open Json

variable {doc rest : Bytes} {key : Text} {tokens : List JsonToken}

variable (rest) in
/-- The test of a key is exact: neither text has a NUL where the document has none. -/
theorem key_test_iff (hdoc : 0 ∉ doc) (hkey : key.len ≤ key.ptr.length) {k : JsonSpan}
    (hk : k.Inside doc) :
    (k.start+key.len=k.stop ∧ strncmpEq ((doc++0::rest).drop k.start) key.ptr key.len) ↔
      k.text doc=key.content := by
  obtain ⟨horder,hend⟩ := hk
  have hcontent : key.content.length=key.len := by
    rw [Text.content,List.length_take,Nat.min_eq_left hkey]
  have htext : (k.text doc).length=k.stop-k.start := by
    rw [JsonSpan.text,List.length_take,List.length_drop]
    omega
  have hread : k.start+key.len=k.stop → ((doc++0::rest).drop k.start).take key.len=k.text doc := by
    intro hlen
    rw [List.drop_append_of_le_length (by omega),List.take_append_of_le_length
      (by rw [List.length_drop]; omega),JsonSpan.text]
    congr 1
    omega
  have hnul : cstr (k.text doc)=k.text doc :=
    cstr_of_not_mem (not_mem_take (fun h => hdoc (List.mem_of_mem_drop h)) _)
  constructor
  · intro h
    obtain ⟨hlen,htest⟩ := h
    rw [strncmpEq,hread hlen,hnul,decide_eq_true_iff] at htest
    have hbegins : k.text doc <+: key.content := by
      rw [htest]
      exact List.takeWhile_prefix _
    exact hbegins.eq_of_length (by omega)
  · intro h
    have hlen : k.start+key.len=k.stop := by
      rw [h] at htext
      omega
    refine ⟨hlen,?_⟩
    rw [strncmpEq,hread hlen,h,Text.content]
    exact decide_eq_true rfl

theorem dictLoop_pairs (hdoc : 0 ∉ doc) (hkey : key.len ≤ key.ptr.length) {object : Nat}
    {pairs : List (JsonSpan × JsonTree)} (hin : PairsInside doc pairs) {j : Nat}
    {after : List JsonToken} (hat : tokens.drop (object+j)=flattenPairs pairs++after) :
    dictLoop (doc++0::rest) tokens object key pairs.length j=
      some ((locate doc key.content (object+j) pairs).map Prod.fst) := by
  induction pairs generalizing j with
  | nil => rfl
  | cons p pairs ih =>
    obtain ⟨k,value⟩ := p
    obtain ⟨hk,-,hpairs⟩ := hin
    have hfirst : tokens[object+j]?=some (k.token .string) := by
      rw [← Nat.add_zero (object+j),← List.getElem?_drop,hat]
      rfl
    have hvalue : tokens.drop (object+j+1)=flatten value++(flattenPairs pairs++after) := by
      rw [← List.drop_drop,hat,flattenPairs,List.cons_append,List.drop_one,List.tail_cons,
        List.append_assoc]
    have hnext : tokens.drop (object+(j+1+(flatten value).length))=flattenPairs pairs++after := by
      rw [← Nat.add_assoc,← Nat.add_assoc,← List.drop_drop,hvalue,List.drop_left]
    have hskip : skip (tokens.drop (object+j+1))=some (flatten value).length := by
      rw [hvalue,skip_flatten]
    rw [List.length_cons,dictLoop,hfirst,locate]
    change (if JsonType.string=.string ∧ k.start+key.len=k.stop ∧
      strncmpEq ((doc++0::rest).drop k.start) key.ptr key.len then _ else _)=_
    have htest := key_test_iff rest hdoc hkey hk
    by_cases htext : k.text doc=key.content
    · rw [if_pos ⟨rfl,htest.mpr htext⟩,if_pos htext]
      rfl
    · rw [if_neg (fun h => htext (htest.mp h.2)),if_neg htext,hskip]
      change dictLoop _ _ _ _ _ _=_
      rw [ih hpairs hnext]
      congr 3
      omega

variable (rest) in
/-- The lookup in an object finds the first pair that has the key. -/
theorem getDictValue_object (hdoc : 0 ∉ doc) (hkey : key.len ≤ key.ptr.length) {i start stop : Nat}
    {pairs : List (JsonSpan × JsonTree)} (hin : (JsonTree.object start stop pairs).Inside doc)
    (hat : (JsonTree.object start stop pairs).At tokens i) :
    getDictValue (doc++0::rest) tokens i key=
      some ((locate doc key.content (i+1) pairs).map Prod.fst) := by
  obtain ⟨after,hafter⟩ := hat
  rw [flatten,List.cons_append] at hafter
  have hfirst : tokens[i]?=some ⟨.object,start,stop,pairs.length⟩ := by
    rw [← Nat.add_zero i,← List.getElem?_drop,← hafter]
    rfl
  have hpairs : tokens.drop (i+1)=flattenPairs pairs++after := by
    rw [← List.drop_drop,← hafter,List.drop_one,List.tail_cons]
  rw [getDictValue,hfirst]
  change dictLoop _ _ _ _ _ _=_
  exact dictLoop_pairs hdoc hkey hin.2 hpairs

theorem getElem?_at {value : JsonTree} {i : Nat} (hat : value.At tokens i) :
    tokens[i]?=some value.head := by
  obtain ⟨after,hafter⟩ := hat
  rw [← Nat.add_zero i,← List.getElem?_drop,← hafter]
  cases value <;> simp [flatten,head]

/-- A value that is no object has no members. -/
theorem getDictValue_other {value : JsonTree} {i : Nat} (hat : value.At tokens i)
    (h : value.head.type ≠ .object) : getDictValue (doc++0::rest) tokens i key=some none := by
  rw [getDictValue,getElem?_at hat]
  change (if value.head.type ≠ .object then _ else _)=_
  rw [if_pos h]
  rfl

theorem locate_member (doc key : Bytes) (i : Nat) (pairs : List (JsonSpan × JsonTree)) :
    (locate doc key i pairs).map Prod.snd=
      (pairs.find? fun p => p.1.text doc=key).map Prod.snd := by
  induction pairs generalizing i with
  | nil => rfl
  | cons p pairs ih =>
    obtain ⟨k,value⟩ := p
    rw [locate,List.find?_cons]
    by_cases htext : k.text doc=key
    · simp [htext]
    · simpa [htext] using ih _

/-- What is located is among the tokens and lies in the document. -/
theorem locate_at {key : Bytes} {pairs : List (JsonSpan × JsonTree)} (hin : PairsInside doc pairs)
    {i j : Nat} {value : JsonTree} (hat : flattenPairs pairs <+: tokens.drop i)
    (h : locate doc key i pairs=some (j,value)) : value.At tokens j ∧ value.Inside doc := by
  induction pairs generalizing i with
  | nil => cases h
  | cons p pairs ih =>
    obtain ⟨k,v⟩ := p
    obtain ⟨-,hv,hpairs⟩ := hin
    obtain ⟨after,hafter⟩ := hat
    have hvalue : tokens.drop (i+1)=flatten v++(flattenPairs pairs++after) := by
      rw [← List.drop_drop,← hafter,flattenPairs,List.cons_append,List.drop_one,List.tail_cons,
        List.append_assoc]
    rw [locate] at h
    split at h
    · cases h
      exact ⟨⟨_,hvalue.symm⟩,hv⟩
    · refine ih hpairs ⟨after,?_⟩ h
      rw [← List.drop_drop,hvalue,List.drop_left]

variable (rest key) in
/-- The lookup yields the member, by the place of its tokens. -/
theorem getDictValue_member (hdoc : 0 ∉ doc) (hkey : key.len ≤ key.ptr.length) {i : Nat}
    {value : JsonTree} (hin : value.Inside doc) (hat : value.At tokens i) :
    (getDictValue (doc++0::rest) tokens i key=some none ∧ value.member doc key.content=none) ∨
      ∃ j v, getDictValue (doc++0::rest) tokens i key=some (some j) ∧
        value.member doc key.content=some v ∧ v.At tokens j ∧ v.Inside doc := by
  cases value with
  | primitive span => exact .inl ⟨getDictValue_other hat (by simp [head,JsonSpan.token]),rfl⟩
  | string span => exact .inl ⟨getDictValue_other hat (by simp [head,JsonSpan.token]),rfl⟩
  | array start stop items => exact .inl ⟨getDictValue_other hat (by simp [head]),rfl⟩
  | object start stop pairs =>
    have hget := getDictValue_object rest hdoc hkey hin hat
    have hmember := locate_member doc key.content (i+1) pairs
    obtain ⟨after,hafter⟩ := hat
    have hpairs : flattenPairs pairs <+: tokens.drop (i+1) := by
      rw [← List.drop_drop,← hafter,flatten,List.cons_append,List.drop_one,List.tail_cons]
      exact List.prefix_append _ _
    cases hloc : locate doc key.content (i+1) pairs with
    | none =>
      rw [hloc] at hget hmember
      exact .inl ⟨hget,hmember.symm⟩
    | some r =>
      rw [hloc] at hget hmember
      obtain ⟨hv,hvin⟩ := locate_at hin.2 hpairs hloc
      exact .inr ⟨r.1,r.2,hget,hmember.symm,hv,hvin⟩

theorem text_memory {value : JsonTree} (hin : value.Inside doc) :
    ((doc++0::rest).drop value.head.start).take (value.head.stop-value.head.start)=
      value.text doc := by
  have hspan : value.head.start ≤ value.head.stop ∧ value.head.stop ≤ doc.length := by
    cases value with
    | primitive span => exact hin
    | string span => exact hin
    | object start stop pairs => exact hin.1
    | array start stop items => exact hin.1
  rw [List.drop_append_of_le_length (by omega),List.take_append_of_le_length
    (by rw [List.length_drop]; omega),text]

/-- The two parts of a name around its first dot. -/
theorem split_content {name : Text} {category item : Bytes} (hname : name.len ≤ name.ptr.length)
    (hsplit : name.content=category++46::item) (hdot : 46 ∉ category) :
    name.content.findIdx (· = 46)=category.length ∧ category.length<name.content.length ∧
      Text.content ⟨name.ptr,category.length⟩=category ∧
      Text.content ⟨name.ptr.drop (category.length+1),name.len-(category.length+1)⟩=item := by
  have hlen : name.len=category.length+(item.length+1) := by
    have h := congrArg List.length hsplit
    rw [Text.content,List.length_take,Nat.min_eq_left hname] at h
    simpa using h
  refine ⟨?_,?_,?_,?_⟩
  · rw [hsplit,List.findIdx_append]
    have hnone : category.findIdx (· = 46)=category.length := by
      apply List.findIdx_eq_length_of_false
      intro b hb
      simpa using fun h : b=46 => hdot (h ▸ hb)
    have hhead : (46::item).findIdx (fun b => decide (b=46))=0 := by
      simp [List.findIdx_cons]
    simp [hnone,hhead]
  · rw [hsplit]
    simp
  · have htake := congrArg (List.take category.length) hsplit
    rw [Text.content,List.take_take,Nat.min_eq_left (by omega),List.take_left] at htake
    exact htake
  · have hdrop := congrArg (List.drop (category.length+1)) hsplit
    rw [Text.content,List.drop_take] at hdrop
    rw [Text.content,hdrop]
    simp [List.drop_append]

/-- The attribute is the text at the end of the path, if the document has the path. -/
theorem getAttributeValue_path (hdoc : 0 ∉ doc) (hlen : doc.length ≤ Json.maxAttributesLen)
    {jsmn : Bytes → Nat → Option (List JsonToken)} {root : JsonTree} (hin : root.Inside doc)
    (hparse : jsmn doc 40=some root.flatten) {name : Text} {category item : Bytes}
    (hname : name.len ≤ name.ptr.length) (hsplit : name.content=category++46::item)
    (hdot : 46 ∉ category) :
    getAttributeValue jsmn (doc++0::rest) name=some ((((root.member doc
      (ascii "indexed_public")).bind (member doc category)).bind (member doc item)).map
        (text doc)) := by
  obtain ⟨hpos,hfound,hcategory,hitem⟩ := split_content hname hsplit hdot
  have hbytes : (doc++0::rest).take (strnlen (doc++0::rest) Json.maxAttributesLen)=doc := by
    have hstr : cstr (doc++0::rest)=doc := by
      rw [cstr,List.takeWhile_append_of_pos]
      · simp
      · intro b hb
        simpa using fun h : b=0 => hdoc (h ▸ hb)
    rw [strnlen,cstr_take,hstr,List.length_take,Nat.min_eq_right hlen,List.take_left]
  have hroot : root.At root.flatten 0 := List.prefix_rfl
  have hcat : (⟨name.ptr,category.length⟩ : Text).len ≤ name.ptr.length := by
    have h := congrArg List.length hsplit
    rw [Text.content,List.length_take,Nat.min_eq_left hname] at h
    simp at h
    change category.length ≤ name.ptr.length
    omega
  have hite : name.len-(category.length+1) ≤ (name.ptr.drop (category.length+1)).length := by
    rw [List.length_drop]
    omega
  rw [getAttributeValue]
  simp only [hpos,if_neg (Nat.not_le.mpr hfound),hbytes,hparse]
  have hkey : (Text.ofString (ascii "indexed_public")).content=ascii "indexed_public" := by
    rw [Text.ofString,Text.content,List.take_length]
  obtain ⟨hget,hmem⟩ | ⟨i,v,hget,hmem,hat,hvin⟩ := getDictValue_member rest
    (.ofString (ascii "indexed_public")) hdoc (le_refl _) hin hroot
  · rw [hkey] at hmem
    rw [hmem]
    simp [hget]
  rw [hkey] at hmem
  obtain ⟨hget',hmem'⟩ | ⟨i',v',hget',hmem',hat',hvin'⟩ := getDictValue_member rest
    ⟨name.ptr,category.length⟩ hdoc hcat hvin hat
  · rw [hcategory] at hmem'
    rw [hmem,Option.bind_some,hmem']
    simp [hget,hget']
  rw [hcategory] at hmem'
  obtain ⟨hget'',hmem''⟩ | ⟨i'',v'',hget'',hmem'',hat'',hvin''⟩ := getDictValue_member
    rest ⟨name.ptr.drop (category.length+1),name.len-(category.length+1)⟩ hdoc
    hite hvin' hat'
  · rw [hitem] at hmem''
    rw [hmem,Option.bind_some,hmem',Option.bind_some,hmem'']
    simp [hget,hget',hget'']
  rw [hitem] at hmem''
  rw [hmem,Option.bind_some,hmem',Option.bind_some,hmem'',Option.map_some]
  simp [hget,hget',hget'',getElem?_at hat'',text_memory hvin'']

end Lookup

/-- The lookups in a JSON document that has no NUL find exactly the addressed value. -/
theorem lookups_exact (doc rest : Bytes) (hdoc : 0 ∉ doc) :
    (∀ (tokens : List JsonToken) (i start stop : Nat) (pairs : List (JsonSpan × JsonTree))
      (key : Text), key.len ≤ key.ptr.length → (JsonTree.object start stop pairs).Inside doc →
      (JsonTree.object start stop pairs).At tokens i →
      Json.getDictValue (doc++0::rest) tokens i key=
        some ((locate doc key.content (i+1) pairs).map Prod.fst) ∧
      (locate doc key.content (i+1) pairs).map Prod.snd=
        (JsonTree.object start stop pairs).member doc key.content ∧
      ∀ j v, locate doc key.content (i+1) pairs=some (j,v) → v.At tokens j) ∧
    ∀ (jsmn : Bytes → Nat → Option (List JsonToken)) (root : JsonTree) (name : Text)
      (category item : Bytes), root.Inside doc → doc.length ≤ Json.maxAttributesLen →
      jsmn doc 40=some root.flatten → name.len ≤ name.ptr.length →
      name.content=category++46::item → 46 ∉ category →
      Json.getAttributeValue jsmn (doc++0::rest) name=some ((((root.member doc
        (ascii "indexed_public")).bind (member doc category)).bind (member doc item)).map
          (text doc)) := by
  constructor
  · intro tokens i start stop pairs key hkey hin hat
    refine ⟨getDictValue_object rest hdoc hkey hin hat,locate_member doc key.content (i+1) pairs,?_⟩
    intro j v hloc
    obtain ⟨after,hafter⟩ := hat
    refine (locate_at hin.2 ?_ hloc).1
    rw [← List.drop_drop,← hafter,flatten,List.cons_append,List.drop_one,List.tail_cons]
    exact List.prefix_append _ _
  · intro jsmn root name category item hin hlen hparse hname hsplit hdot
    exact getAttributeValue_path hdoc hlen hin hparse hname hsplit hdot

/-- The text {"a":{"b":"w"},"indexed_public":{"b":{"b":1},"a":{"d":{"b":"v"},"b":"x"}}}. -/
def sampleDoc : Bytes :=
  [123,34,97,34,58,123,34,98,34,58,34,119,34,125,44,34,105,110,100,101,120,101,100,95,112,117,98,
    108,105,99,34,58,123,34,98,34,58,123,34,98,34,58,49,125,44,34,97,34,58,123,34,100,34,58,123,34,
    98,34,58,34,118,34,125,44,34,98,34,58,34,120,34,125,125,125]

def sampleTree : JsonTree :=
  .object 0 74 [(⟨2,3,1⟩,.object 5 14 [(⟨7,8,1⟩,.string ⟨11,12,0⟩)]),
    (⟨16,30,1⟩,.object 32 73 [(⟨34,35,1⟩,.object 37 44 [(⟨39,40,1⟩,.primitive ⟨42,43,0⟩)]),
      (⟨46,47,1⟩,.object 49 72 [(⟨51,52,1⟩,.object 54 63 [(⟨56,57,1⟩,.string ⟨60,61,0⟩)]),
        (⟨65,66,1⟩,.string ⟨69,70,0⟩)])])]

theorem lookups_exact_nested :
    Json.getAttributeValue (fun _ _ => some sampleTree.flatten) (sampleDoc++0::[])
      (.ofString (ascii "a.b"))=some (some (ascii "x")) := by
  have hpath := (lookups_exact sampleDoc [] (by decide)).2 (fun _ _ => some sampleTree.flatten)
    sampleTree (.ofString (ascii "a.b")) (ascii "a") (ascii "b")
    (by simp [Inside,PairsInside,sampleTree,sampleDoc,JsonSpan.Inside]) (by decide) rfl (le_refl _)
    (by decide) (by decide)
  rw [hpath]
  decide

end JsonTree

end CalvinConstrained
