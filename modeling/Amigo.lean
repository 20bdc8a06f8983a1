import Amigo.FeedCity
import Amigo.Selection
import Amigo.StaleRows
import Amigo.TableScreen
import Amigo.SessionUnwraps
import Amigo.SessionRecords
import Amigo.MergeOrder
import Amigo.FetchedPosts
import Amigo.StoredDate
import Amigo.SplicedClauses
import Amigo.DateTable
import Amigo.Database
import Amigo.StoredForms
import Amigo.ImageStorage
import Amigo.Subscriptions
import Amigo.FailedFetch
import Amigo.Overtaking
import Amigo.OwnDelete
import Amigo.Authors
import Amigo.EditFlow
import Amigo.Identity
import Amigo.ConfirmedDelete
import Amigo.Registration
import Amigo.Quiescence
import Amigo.Provenance
import Amigo.Immutable.SortedMap
import Amigo.Local.LevelDbQueueLaws
import Amigo.Remote.WriteGuarantees
