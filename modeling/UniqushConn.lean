import UniqushConn.Go
import UniqushConn.Time
import UniqushConn.Proto
import UniqushConn.Msgcache.Redis
import UniqushConn.Msgcache.Serial
import UniqushConn.Msgcache.Clients
import UniqushConn.Msgcache.Latest
import UniqushConn.Server.Conn
import UniqushConn.Server.Send
import UniqushConn.Server.Dispatch
import UniqushConn.Server.Delivery
import UniqushConn.Server.Errors
import UniqushConn.Server.Excludes
import UniqushConn.Server.Runs
