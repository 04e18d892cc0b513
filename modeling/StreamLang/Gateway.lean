import StreamLang.Json

/-!
The services outside a program: files, the web, questions, the knowledge graph, models.
-/

namespace StreamLang

/-- What a service can be asked to do. -/
inductive ServiceOp
  | readFile
  | writeFile
  | httpGet
  | httpPost
  | ask
  | askBatch
  | addEntity
  | addRelation
  | queryKnowledgeGraph
  | trainModel
  | predict
deriving DecidableEq, Repr

namespace ServiceOp

def all : List ServiceOp :=
  [readFile, writeFile, httpGet, httpPost, ask, askBatch, addEntity, addRelation,
    queryKnowledgeGraph, trainModel, predict]

def text : ServiceOp → String
  | readFile => "read_file"
  | writeFile => "write_file"
  | httpGet => "http_get"
  | httpPost => "http_post"
  | ask => "ask"
  | askBatch => "ask_batch"
  | addEntity => "add_entity"
  | addRelation => "add_relation"
  | queryKnowledgeGraph => "query_knowledge_graph"
  | trainModel => "train_model"
  | predict => "predict"

def ofText? (s : String) : Option ServiceOp := all.find? (·.text == s)

theorem ofText?_text (op : ServiceOp) : ofText? op.text = some op := by cases op <;> decide

end ServiceOp

end StreamLang

/-!
The boundary to the services outside a program. A call becomes a request; the answer comes when the
service gives it.
-/

namespace StreamLang

abbrev RequestId : Type := Nat

structure ServiceRequest where
  id : RequestId
  op : ServiceOp
  args : List Json

/-- The answer to a request; an error is the service's, and the program sees it as a value. -/
structure Completion where
  id : RequestId
  reply : Except String Json

/-- A provider of services with states `γ`. An error is a failure of the provider itself; the
provider goes on from the state given with it. -/
class Gateway (γ : Type) where
  dispatch : ServiceRequest → γ → Except String Unit × γ
  /-- The next answer that is there, if any. -/
  poll : γ → Except String (Option Completion) × γ
  /-- How many answers are still to come. While there are some, nothing means not yet. -/
  outstanding : γ → Nat
  /-- Passes time until an answer may be there. -/
  wait : γ → Except String Unit × γ

end StreamLang
